import PocketCalc.Proofs.Evaluation
import PocketCalc.Proofs.Readout
import PocketCalc.Session

/-!
# What a session does step by step

The text of a session comes about in four ways: nothing has been typed, a key is typed, a character
is taken back, or a result is shown.  A property of texts that all of them keep holds throughout
(`Kept.run`).  The error of a session is always that of an earlier text (`exists_evaluate_of_run`).

Main statements: `Kept.run`, `exists_evaluate_of_run`.
-/

namespace PocketCalc.Session

/-! ### Texts -/

/-- Unless the marker is shown, the text satisfies `P`. -/
def Shows (P : List Char → Prop) (s : Session) : Prop := s.inError = false → P s.buffer

/-- Whatever is done to a text that satisfies `P`, except for taking back a character, gives one
that does. -/
structure Kept (P : List Char → Prop) : Prop where
  /-- Nothing has been typed. -/
  empty : P emptyBuffer
  /-- A key is typed. -/
  insertKey : ∀ {buffer : List Char} (key : Key), P buffer → P (insertKey buffer key)
  /-- A result is shown. -/
  result : ∀ d : Decimal, P d.text

/-- Taking back a character of a text that satisfies `P` leaves one that does. -/
def KeptByDelete (P : List Char → Prop) : Prop :=
  ∀ {buffer : List Char}, P buffer → buffer.dropLast ≠ [] → P buffer.dropLast

section

variable {P : List Char → Prop} {s : Session}

theorem Kept.clear (hP : Kept P) (s : Session) : s.clear.Shows P := fun _ => hP.empty

theorem Kept.press (hP : Kept P) (h : s.Shows P) (key : Key) : (s.press key).Shows P := by
  intro _
  unfold Session.press
  by_cases herror : s.inError = true
  · rw [if_pos herror]
    exact hP.insertKey key hP.empty
  · rw [if_neg herror]
    exact hP.insertKey key (h (Bool.eq_false_iff.2 herror))

theorem Kept.append (hP : Kept P) (h : s.Shows P) (text : List Char) : (s.append text).Shows P := by
  unfold Session.append
  split
  · exact hP.press h _
  · exact h

theorem Kept.delete (hP : Kept P) (hdelete : KeptByDelete P) (h : s.Shows P) :
    s.delete.Shows P := by
  unfold Session.delete
  by_cases herror : s.inError = true
  · rw [if_pos herror]
    exact hP.clear s
  · rw [if_neg herror]
    intro hfalse
    by_cases hrest : s.buffer.dropLast = []
    · simpa [hrest] using hP.empty
    · simpa [hrest] using hdelete (h hfalse) hrest

theorem Kept.evaluate (hP : Kept P) (h : s.Shows P) : s.evaluate.Shows P := by
  unfold Session.evaluate
  by_cases herror : s.inError = true
  · rwa [if_pos herror]
  · rw [if_neg herror]
    cases heval : PocketCalc.evaluate s.buffer s.settings.places with
    | error error => exact fun hfalse => by cases hfalse
    | ok e =>
      obtain ⟨-, -, -, -, -, hreadout, -⟩ := evaluate_eq_ok_iff.1 heval
      obtain ⟨-, htext⟩ := readout_eq_ok_iff.1 hreadout
      intro _
      show P e.text
      rw [htext]
      exact hP.result _

theorem Kept.act (hP : Kept P) {action : Action} (hdelete : action = .delete → KeptByDelete P)
    (h : s.Shows P) : (s.act action).Shows P := by
  cases action with
  | append text => exact hP.append h text
  | clear => exact hP.clear s
  | delete => exact hP.delete (hdelete rfl) h
  | evaluate => exact hP.evaluate h

/-- **What a session keeps of its text holds however long it goes on.** -/
theorem Kept.run (hP : Kept P) {actions : List Action}
    (hdelete : .delete ∈ actions → KeptByDelete P) (h : s.Shows P) : (s.run actions).Shows P := by
  induction actions generalizing s with
  | nil => exact h
  | cons action actions ih =>
    refine ih (fun hmem => hdelete (List.mem_cons_of_mem _ hmem)) (hP.act ?_ h)
    rintro rfl
    exact hdelete List.mem_cons_self

end

/-! ### Errors -/

variable {s : Session} {error : CalcError}

/-- An evaluation reports the error of the text that is shown. -/
theorem lastError_evaluate_eq_some_iff (h : s.inError = false) :
    s.evaluate.lastError = some error ↔
      PocketCalc.evaluate s.buffer s.settings.places = .error error := by
  simp only [Session.evaluate, h, Bool.false_eq_true, if_false]
  cases PocketCalc.evaluate s.buffer s.settings.places with
  | ok e => simp
  | error e => simp

theorem exists_evaluate_of_act {action : Action} (h : (s.act action).lastError = some error) :
    s.lastError = some error ∨
      s.inError = false ∧ PocketCalc.evaluate s.buffer s.settings.places = .error error := by
  cases action with
  | append text =>
    refine .inl (h ▸ ?_)
    simp only [act, append, press, Session.clear]
    split
    · split <;> rfl
    · rfl
  | clear => exact .inl h
  | delete =>
    refine .inl (h ▸ ?_)
    simp only [act, delete, Session.clear]
    split <;> rfl
  | evaluate =>
    by_cases hup : s.inError = true
    · rw [act, Session.evaluate, if_pos hup] at h
      exact .inl h
    · have hshown : s.inError = false := Bool.eq_false_iff.2 hup
      exact .inr ⟨hshown, (lastError_evaluate_eq_some_iff hshown).1 h⟩

/-- **The error of a session is that of the text after some of the actions.** -/
theorem exists_evaluate_of_run {actions : List Action}
    (h : (s.run actions).lastError = some error) :
    s.lastError = some error ∨ ∃ earlier, earlier <+: actions ∧ (s.run earlier).inError = false ∧
      PocketCalc.evaluate (s.run earlier).buffer (s.run earlier).settings.places =
        .error error := by
  induction actions using List.reverseRecOn with
  | nil => exact .inl h
  | append_singleton actions action ih =>
    rw [run_append] at h
    rcases exists_evaluate_of_act h with h | ⟨herror, heval⟩
    · refine (ih h).imp_right ?_
      rintro ⟨earlier, hpre, hearlier⟩
      exact ⟨earlier, hpre.trans (List.prefix_append _ _), hearlier⟩
    · exact .inr ⟨actions, List.prefix_append _ _, herror, heval⟩

end PocketCalc.Session
