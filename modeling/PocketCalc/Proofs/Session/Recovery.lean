import PocketCalc.Proofs.Session.Diagnostics
import PocketCalc.Proofs.Session.Idempotence

/-!
# Recovery

Clearing takes the text and the flag back to what they are before anything is done, and while a
marker is shown, so does every action that does anything (`act_eq_act_clear`).  What a session keeps
of its last evaluation, its error and its trace, outlives this.  But no action reads it: sessions
that differ in nothing else (`Alike`) show the same texts and flags, whatever is done in them
(`Alike.shownAlong_eq`).

Main statement: `shownAlong_after_recovery`.
-/

namespace PocketCalc

/-- While a marker is shown, the action takes it away. -/
def Action.recovers : Action → Bool
  | append text => (Key.read? text).isSome
  | clear | delete => true
  | evaluate => false

namespace Session

/-- What is shown after each of several actions: the text and the flag. -/
def shownAlong (s : Session) : List Action → List (List Char × Bool)
  | [] => []
  | action :: actions =>
    ((s.act action).buffer, (s.act action).inError) :: (s.act action).shownAlong actions

/-- Two sessions differ at most in what they keep of their last evaluation. -/
structure Alike (s t : Session) : Prop where
  /-- The settings are the same. -/
  settings : s.settings = t.settings
  /-- The same text is shown. -/
  buffer : s.buffer = t.buffer
  /-- The flag is up in both or in neither. -/
  inError : s.inError = t.inError

variable {s t : Session} {action : Action} {actions : List Action}

/-! ### What is kept of the last evaluation is not read -/

theorem Alike.clear (h : Alike s t) : Alike s.clear t.clear := ⟨h.settings, rfl, rfl⟩

theorem Alike.press (h : Alike s t) (key : Key) : Alike (s.press key) (t.press key) := by
  unfold Session.press
  rw [h.inError]
  split
  · exact ⟨h.settings, rfl, rfl⟩
  · exact ⟨h.settings, congrArg (insertKey · key) h.buffer, h.inError⟩

theorem Alike.append (h : Alike s t) (text : List Char) :
    Alike (s.append text) (t.append text) := by
  unfold Session.append
  split
  · exact h.press _
  · exact h

theorem Alike.delete (h : Alike s t) : Alike s.delete t.delete := by
  unfold Session.delete
  rw [h.inError, h.buffer]
  split
  · exact h.clear
  · exact ⟨h.settings, rfl, rfl⟩

theorem Alike.evaluate (h : Alike s t) : Alike s.evaluate t.evaluate := by
  unfold Session.evaluate
  rw [h.inError, h.buffer, h.settings]
  split
  · exact h
  · split
    · exact ⟨rfl, rfl, rfl⟩
    · exact ⟨rfl, rfl, rfl⟩

theorem Alike.act (h : Alike s t) (action : Action) : Alike (s.act action) (t.act action) := by
  cases action with
  | append text => exact h.append text
  | clear => exact h.clear
  | delete => exact h.delete
  | evaluate => exact h.evaluate

/-- Sessions that are alike show the same, however long they go on. -/
theorem Alike.shownAlong_eq (h : Alike s t) (actions : List Action) :
    s.shownAlong actions = t.shownAlong actions := by
  induction actions generalizing s t with
  | nil => rfl
  | cons action actions ih =>
    have hact := h.act action
    rw [shownAlong, shownAlong, hact.buffer, hact.inError, ih hact]

/-! ### Back to the start -/

/-- After clearing, only the error and the trace tell that anything has been done. -/
theorem alike_clear (s : Session) : Alike s.clear { settings := s.settings } := ⟨rfl, rfl, rfl⟩

/-- An action that takes the marker away starts from where clearing leads. -/
theorem act_eq_act_clear (hup : s.inError = true) (haction : action.recovers = true) :
    s.act action = s.clear.act action := by
  cases action with
  | append text =>
    obtain ⟨key, hkey⟩ := Option.isSome_iff_exists.1 haction
    simp [act, Session.append, hkey, Session.press, Session.clear, hup]
  | clear => rfl
  | delete => simp [act, Session.delete, Session.clear, hup, emptyBuffer]
  | evaluate => cases haction

theorem shownAlong_of_recovers (hup : s.inError = true) (haction : action.recovers = true)
    (actions : List Action) :
    s.shownAlong (action :: actions) = s.clear.shownAlong (action :: actions) := by
  rw [shownAlong, shownAlong, act_eq_act_clear hup haction]

/-- An action that leaves the marker leaves everything. -/
theorem act_of_not_recovers (hup : s.inError = true) (haction : action.recovers = false) :
    s.act action = s := by
  cases action with
  | append text =>
    have hkey : Key.read? text = none := by simpa [Action.recovers] using haction
    simp [act, Session.append, hkey]
  | clear | delete => cases haction
  | evaluate => exact evaluate_of_inError hup

theorem run_of_not_recovers (hup : s.inError = true)
    (hactions : ∀ action ∈ actions, action.recovers = false) : s.run actions = s := by
  induction actions with
  | nil => rfl
  | cons action actions ih =>
    obtain ⟨haction, hrest⟩ := List.forall_mem_cons.1 hactions
    show (s.act action).run actions = s
    rw [act_of_not_recovers hup haction]
    exact ih hrest

/-- **Recovery is complete.**  Once a session has been cleared, it shows what one with the same
settings shows in which nothing has been done before.  While a marker is shown, an action that takes
it away does the same by itself, and all others leave the whole session as it is. -/
theorem shownAlong_after_recovery {settings : Settings} {before : List Action}
    (hs : ({ settings := settings } : Session).run before = s) :
    (∀ actions,
      s.clear.shownAlong actions = ({ settings := settings } : Session).shownAlong actions) ∧
    (s.inError = true →
      (∀ action actions, action.recovers = true →
        s.shownAlong (action :: actions) =
          ({ settings := settings } : Session).shownAlong (action :: actions)) ∧
      ∀ actions, (∀ action ∈ actions, action.recovers = false) → s.run actions = s) := by
  have hsettings : s.settings = settings := by
    rw [← hs]
    exact settings_run _ before
  have hclear (actions : List Action) :
      s.clear.shownAlong actions = ({ settings := settings } : Session).shownAlong actions := by
    rw [← hsettings]
    exact (alike_clear s).shownAlong_eq actions
  refine ⟨hclear, fun hup => ⟨fun action actions haction => ?_, fun actions => ?_⟩⟩
  · rw [shownAlong_of_recovers hup haction, hclear]
  · exact run_of_not_recovers hup

/-- After `5÷0` with another marker, neither evaluating again nor an unknown key changes anything,
and taking back a character is where `2÷3` starts anew. -/
theorem shownAlong_after_recovery_division :
    ∃ s : Session, ({ settings := (({} : Settings).withPlaces 3).withMarker ['?'] } : Session).run
        [.append ['5'], .append ['÷'], .append ['0'], .evaluate] = s ∧ s.inError = true ∧
      s.run [.evaluate, .append ['#']] = s ∧
      s.shownAlong [.delete, .append ['2'], .append ['÷'], .append ['3'], .evaluate] =
        [(['0'], false), (['2'], false), (['2', '÷'], false), (['2', '÷', '3'], false),
          (['0', '.', '6', '6', '7'], false)] := by
  have hup : (({ settings := (({} : Settings).withPlaces 3).withMarker ['?'] } : Session).run
      [.append ['5'], .append ['÷'], .append ['0'], .evaluate]).inError = true := by
    decide +kernel
  generalize hs : ({ settings := (({} : Settings).withPlaces 3).withMarker ['?'] } : Session).run
    [.append ['5'], .append ['÷'], .append ['0'], .evaluate] = s at hup
  obtain ⟨-, hmarked⟩ := shownAlong_after_recovery hs
  obtain ⟨hanew, hsame⟩ := hmarked hup
  refine ⟨s, rfl, hup, hsame _ (by decide), ?_⟩
  rw [hanew _ _ rfl]
  decide +kernel

end Session

end PocketCalc
