import PocketCalc.Proofs.Session.Buffer

/-!
# What a session says about its last evaluation

A session keeps the error or the trace of its last evaluation, and a flag that is up as long as the
marker of a failure is shown.  An evaluation sets one of the first two and takes the other back
(`Diagnosed.evaluate`); everything else leaves both as they are and lowers the flag if it does
anything at all (`Diagnosed.edit`).

No key types the first letter of the usual marker and no result holds it.  So the text alone shows
whether the flag is up, unless the settings name another marker.

Main statement: `consistent_run`.
-/

namespace PocketCalc.Session

variable {s s' : Session}

/-! ### Settings -/

theorem settings_act (s : Session) (action : Action) : (s.act action).settings = s.settings := by
  cases action with
  | append text =>
    simp only [act, append, press, clear]
    split
    · split <;> rfl
    · rfl
  | clear => rfl
  | delete =>
    simp only [act, delete, clear]
    split <;> rfl
  | evaluate =>
    simp only [act, evaluate]
    split
    · rfl
    · split <;> rfl

theorem settings_run (s : Session) (actions : List Action) :
    (s.run actions).settings = s.settings := by
  induction actions generalizing s with
  | nil => rfl
  | cons action actions ih => exact (ih (s.act action)).trans (settings_act s action)

/-! ### The flag, the error and the trace -/

/-- The flag, the error and the trace go together. -/
structure Diagnosed (s : Session) : Prop where
  /-- There is an error or a trace, not both. -/
  exclusive : s.lastError = none ∨ s.lastTrace = none
  /-- While the flag is up, the marker is shown and the error is known. -/
  marked : s.inError = true →
    s.buffer = s.settings.marker ∧ (∃ error, s.lastError = some error) ∧ s.lastTrace = none

/-- Whatever lowers the flag and leaves the error and the trace alone is harmless. -/
theorem Diagnosed.edit (h : Diagnosed s) (herror : s'.lastError = s.lastError)
    (htrace : s'.lastTrace = s.lastTrace) (hflag : s'.inError = false) : Diagnosed s' where
  exclusive := by
    rw [herror, htrace]
    exact h.exclusive
  marked hup := by
    rw [hflag] at hup
    cases hup

theorem Diagnosed.clear (h : Diagnosed s) : Diagnosed s.clear := h.edit rfl rfl rfl

theorem Diagnosed.delete (h : Diagnosed s) : Diagnosed s.delete := by
  unfold Session.delete
  by_cases hup : s.inError = true
  · rw [if_pos hup]
    exact h.clear
  · rw [if_neg hup]
    exact h.edit rfl rfl (Bool.eq_false_iff.2 hup)

theorem Diagnosed.press (h : Diagnosed s) (key : Key) : Diagnosed (s.press key) := by
  unfold Session.press
  by_cases hup : s.inError = true
  · rw [if_pos hup]
    exact h.edit rfl rfl rfl
  · rw [if_neg hup]
    exact h.edit rfl rfl (Bool.eq_false_iff.2 hup)

theorem Diagnosed.append (h : Diagnosed s) (text : List Char) : Diagnosed (s.append text) := by
  unfold Session.append
  split
  · exact h.press _
  · exact h

theorem Diagnosed.evaluate (h : Diagnosed s) : Diagnosed s.evaluate := by
  unfold Session.evaluate
  by_cases hup : s.inError = true
  · rwa [if_pos hup]
  · rw [if_neg hup]
    cases PocketCalc.evaluate s.buffer s.settings.places with
    | ok e => exact ⟨.inl rfl, fun hup' => absurd hup' hup⟩
    | error error => exact ⟨.inr rfl, fun _ => ⟨rfl, ⟨error, rfl⟩, rfl⟩⟩

theorem Diagnosed.act (h : Diagnosed s) (action : Action) : Diagnosed (s.act action) := by
  cases action with
  | append text => exact h.append text
  | clear => exact h.clear
  | delete => exact h.delete
  | evaluate => exact h.evaluate

theorem Diagnosed.run (h : Diagnosed s) (actions : List Action) : Diagnosed (s.run actions) := by
  induction actions generalizing s with
  | nil => exact h
  | cons action actions ih => exact ih (h.act action)

/-! ### Whole sessions -/

/-- What a session with the given settings shows and keeps is consistent. -/
structure Consistent (settings : Settings) (s : Session) : Prop where
  /-- There is a text. -/
  buffer_ne_nil : s.buffer ≠ []
  /-- There is an error or a trace, not both. -/
  exclusive : s.lastError = none ∨ s.lastTrace = none
  /-- While the flag is up, the text is the marker, and there is an error but no trace. -/
  marked : s.inError = true →
    s.buffer = settings.marker ∧ (∃ error, s.lastError = some error) ∧ s.lastTrace = none
  /-- The settings are the given ones. -/
  settings_eq : s.settings = settings

/-- The usual marker cannot be typed. -/
theorem not_wellFormedBuffer_defaultMarker : ¬ WellFormedBuffer defaultMarker := by
  intro h
  have htyped := h.typed 'E' (by decide)
  revert htyped
  decide

theorem diagnosed_start (settings : Settings) : Diagnosed { settings := settings } :=
  ⟨.inl rfl, fun hup => by cases hup⟩

theorem Consistent.of_run (settings : Settings) (actions : List Action) :
    Consistent settings (({ settings := settings } : Session).run actions) := by
  have hsettings : (({ settings := settings } : Session).run actions).settings = settings :=
    settings_run _ actions
  have hdiagnosed := (diagnosed_start settings).run actions
  have horder := inGoodOrder_run settings actions
  generalize ({ settings := settings } : Session).run actions = s at hsettings hdiagnosed horder ⊢
  refine ⟨?_, hdiagnosed.exclusive, ?_, hsettings⟩
  · cases hup : s.inError with
    | true =>
      rw [(hdiagnosed.marked hup).1]
      exact s.settings.marker_ne_nil
    | false => exact (horder hup).ne_nil
  · rw [← hsettings]
    exact hdiagnosed.marked

/-- **What a session shows and what it keeps are consistent at all times.**  With the usual marker,
the text tells an error from a result: it is the marker exactly while the flag is up. -/
theorem consistent_run (settings : Settings) (actions : List Action) :
    Consistent settings (({ settings := settings } : Session).run actions) ∧
      ((({} : Session).run actions).buffer = defaultMarker ↔
        (({} : Session).run actions).inError = true) := by
  refine ⟨.of_run settings actions, fun hbuffer => ?_, fun hup => ?_⟩
  · by_contra hdown
    have horder := inGoodOrder_run {} actions (Bool.eq_false_iff.2 hdown)
    rw [hbuffer] at horder
    exact not_wellFormedBuffer_defaultMarker horder
  · exact ((Consistent.of_run {} actions).marked hup).1

end PocketCalc.Session
