import Netcfgd.Tables

/-!
# What is written is sound

A value that is not sound is one that `ncfg_type_write` has no value for, and it is not written
instead of it : nothing follows the name of its member, and the writer fails at the next name or at
the end of the object. So where a writer is done, what it wrote is sound (`Kind.sound_of_done`), and
its text is that of the value (`Kind.text_of_done`).
-/

namespace Netcfgd.Model

open Json

/-! ## Calls that fail -/

def Spoils (calls : List Call) : Prop := ∀ w : Writer, (calls.foldl Writer.call w).hasFailed = true

section

variable {calls : List Call}

theorem Spoils.append (h : Spoils calls) (more : List Call) : Spoils (calls ++ more) := by
  intro w
  rw [List.foldl_append]
  exact Writer.calls_of_failed (h w) more

theorem Spoils.after (h : Spoils calls) (earlier : List Call) : Spoils (earlier ++ calls) := by
  intro w
  rw [List.foldl_append]
  exact h _

theorem Spoils.cons (h : Spoils calls) (c : Call) : Spoils (c :: calls) := h.after [c]

theorem spoils_noString : Spoils [.noString] := by
  intro w
  change (w.call .noString).hasFailed = true
  simp only [Writer.call]
  rcases Writer.usable_eq w with ⟨-, husable⟩ | ⟨-, w', husable, hfailed⟩
  · rw [husable]
    exact Writer.hasFailed_fail _ _
  · rw [husable]
    exact hfailed

def Next (calls : List Call) : Prop :=
  ∃ c rest, calls = c :: rest ∧ (c = .objectEnd ∨ ∃ name, c = .key name)

theorem spoils_key (name : Option Bytes) (h : Next calls) : Spoils (.key name :: calls) := by
  obtain ⟨c, rest, rfl, hc⟩ := h
  intro w
  rw [List.foldl_cons, List.foldl_cons]
  refine Writer.calls_of_failed ?_ rest
  by_contra hok
  have hok : ((w.call (.key name)).call c).hasFailed = false := eq_false_of_ne_true hok
  have hkey : (w.call (.key name)).hasFailed = false :=
    @Writer.ok_of_calls (w.call (.key name)) [c] hok
  obtain ⟨bytes, -, -, -, -, -, heq⟩ := Writer.writeKey_ok hkey
  have hwants : (w.call (.key name)).frame.wantsValue = true := by
    change (w.writeKey name).frame.wantsValue = true
    rw [heq]
  rcases hc with rfl | ⟨name', rfl⟩
  · obtain ⟨-, -, -, -, hno, -⟩ := Writer.containerEnd_ok hok
    rw [hwants] at hno
    cases hno
  · obtain ⟨-, -, -, -, hno, -⟩ := Writer.writeKey_ok hok
    rw [hwants] at hno
    cases hno

end

/-! ## Kinds and entries -/

/-- A kind that writes nothing of a value that is not sound, or what fails. -/
def Kind.Shows {β : Type} (k : Kind β) : Prop :=
  ∀ b, ¬k.Sound b → k.write b = [] ∨ Spoils (k.write b)

def Kind.Firm {β : Type} (k : Kind β) : Prop := ∀ b, ¬k.Sound b → Spoils (k.write b)

def Entry.Shows {β : Type} (e : Entry β) : Prop :=
  ∀ b, ¬e.Sound b → e.omits b = false ∧ (e.write b = [] ∨ Spoils (e.write b))

def Table.Shows : {τ : Type} → Table τ → Prop
  | _, .nil => True
  | _, .cons e rest => e.Shows ∧ rest.Shows

theorem Table.Shows.nil : Table.nil.Shows := trivial

theorem Table.Shows.cons {β γ : Type} {e : Entry β} {rest : Table γ} (h : e.Shows)
    (hrest : rest.Shows) : (Table.cons e rest).Shows :=
  ⟨h, hrest⟩

namespace Kind

variable {β : Type} {k : Kind β}

theorem Firm.shows (h : k.Firm) : k.Shows := fun b hb => .inr (h b hb)

theorem firm_of_sound (h : ∀ b, k.Sound b) : k.Firm := fun b hb => absurd (h b) hb

theorem shows_enum (set : WordSet) : (enum set).Shows := by
  intro v hv
  refine .inl ?_
  change set.calls v = []
  cases hname : set.name v with
  | some w => exact absurd (by change (set.name v).isSome = true; rw [hname]; rfl) hv
  | none => simp only [WordSet.calls, hname]

theorem shows_choice (set : WordSet) : (choice set).Shows :=
  fun n hn => shows_enum set n.toInt32.toInt hn

theorem Firm.list (h : k.Firm) : k.list.Firm := by
  intro bs hbs
  obtain ⟨b, hnot⟩ := not_forall.1 hbs
  obtain ⟨hmem, hb⟩ := Classical.not_imp.1 hnot
  obtain ⟨before, after, rfl⟩ := List.append_of_mem hmem
  change Spoils (.arrayBegin :: ((before ++ b :: after).flatMap k.write ++ [Call.arrayEnd]))
  rw [List.flatMap_append, List.flatMap_cons]
  exact ((((h b hb).append _).after _).append _).cons _

theorem Shows.required (h : k.Shows) {name : String} : (k.required name).Shows :=
  fun b hb => ⟨rfl, h b hb⟩

theorem shows_of_sound {e : Entry β} (h : ∀ b, e.Sound b) : e.Shows := fun b hb => absurd (h b) hb

theorem Shows.member (h : k.Shows) {name : String} {fallback : β} {omits : β → Bool}
    {homits : ∀ b, omits b = true → b = fallback} {hsound : k.Sound fallback} :
    (k.member name fallback omits homits hsound).Shows := by
  refine fun b hb => ⟨?_, h b hb⟩
  by_contra ho
  exact hb (homits b (eq_true_of_ne_false ho) ▸ hsound)

theorem Shows.optional (h : k.Shows) {name : String} {must nullable : Bool} :
    (k.optional name must nullable).Shows := by
  intro b hb
  cases b with
  | none => exact absurd nofun hb
  | some v => exact ⟨rfl, h v fun hv => hb fun v' heq => by cases heq; exact hv⟩

end Kind

/-! ## Tables -/

theorem next_write {τ : Type} : ∀ (t : Table τ) (v : τ), Next (t.write v ++ [Call.objectEnd])
  | .nil, _ => ⟨.objectEnd, [], rfl, .inl rfl⟩
  | .cons e rest, (b, bs) => by
    rw [Table.write]
    split_ifs
    · exact next_write rest bs
    · exact ⟨_, _, rfl, .inr ⟨_, rfl⟩⟩

theorem spoils_write : ∀ {τ : Type} {t : Table τ} {v : τ}, t.Shows → ¬t.Sound v →
    Spoils (t.write v ++ [Call.objectEnd])
  | _, .nil, _, _, h => absurd trivial h
  | _, .cons e rest, (b, bs), hshows, h => by
    obtain ⟨hentry, hrest⟩ := hshows
    rw [Table.write, List.append_assoc]
    by_cases hb : e.Sound b
    · exact (spoils_write hrest fun hbs => h ⟨hb, hbs⟩).after _
    · obtain ⟨ho, hwrite⟩ := hentry b hb
      rw [ho, if_neg Bool.false_ne_true]
      rcases hwrite with hnone | hspoils
      · rw [hnone]
        exact spoils_key _ (next_write rest bs)
      · exact ((hspoils.cons _).append _)

theorem fst_of_written {β γ : Type} {e : Entry β} {rest : Table γ}
    (hproper : Proper (Table.cons e rest).names) {b b' : β} {bs bs' : γ} {n : ℕ} (hb : e.Keeps b)
    (h :
      (Table.cons e rest).read (told ((Table.cons e rest).fields (b, bs))) = some ((b', bs'), n)) :
    b' = b := by
  obtain ⟨found, -, hfind, -, -⟩ := Table.read_cons_eq_some.1 h
  have hfields : Proper (((Table.cons e rest).fields (b, bs)).map Prod.fst) := by
    rwa [Table.fst_fields]
  have hmember := member?_told hfields (List.mem_cons_self)
  have hback := (e.read_back (e.sound_of_keeps hb)).2 hb
  cases ho : e.omits b with
  | true =>
    rw [ho, if_pos rfl] at hmember hback
    rcases Table.find_eq_some.1 hfind with ⟨d, hd, -, -⟩ | ⟨-, habsent, -⟩
    · rw [hmember] at hd
      cases hd
    · exact Option.some.inj (habsent.symm.trans hback)
  | false =>
    rw [ho, if_neg Bool.false_ne_true] at hmember hback
    rcases Table.find_eq_some.1 hfind with ⟨d, hd, hread, -⟩ | ⟨hnone, -, -⟩
    · rw [hmember] at hd
      cases hd
      exact Option.some.inj (hread.symm.trans hback)
    · rw [hmember] at hnone
      cases hnone

namespace Kind

variable {τ σ : Type} (t : Table τ)

theorem firm_struct (h : t.Shows) {e : τ ≃ σ} {hproper : Proper t.names}
    {hclear : ∀ ms, t.Clear ms} :
    (struct t e hproper hclear).Firm :=
  fun _ hs => (spoils_write h hs).cons _

theorem firm_loose (h : t.Shows) {e : τ ≃ σ} {hproper : Proper t.names} :
    (loose t e hproper).Firm :=
  fun _ hs => (spoils_write h hs).cons _

variable {β : Type} {k : Kind β} {limit : ℕ} {b : β}

theorem sound_of_done (h : k.Firm) (hdone : (Json.write limit (k.write b)).done = true) :
    k.Sound b := by
  by_contra hb
  have hok := (of_decide_eq_true hdone).1
  exact hok (h b hb _)

theorem text_of_done (h : k.Firm) (hdone : (Json.write limit (k.write b)).done = true) :
    Json.Fits maxDepth (k.script b).value ∧
      (Json.write limit (k.write b)).buf.bytes = render compact 0 (k.script b).value := by
  have hcalls := k.calls_script (sound_of_done h hdone)
  rw [hcalls] at hdone ⊢
  exact Writer.text_of_script hdone

end Kind

end Netcfgd.Model
