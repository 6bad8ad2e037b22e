import Runbook.Proofs.Structured.Following

namespace Runbook

open Runbook.Action

def Loop.frame (l : Loop) (place : Nat) (saved : Snapshot) : Frame :=
  { place := place, saved := saved, body := .loop l }

abbrev Call.looping (c : Call) (kind : LoopKind) (cursor : Cursor) (place : Nat)
    (saved : Snapshot) : Call :=
  c.push ({ kind := kind, cursor := cursor : Loop }.frame place saved)

def Cursor.Planned : LoopKind → Cursor → Prop
  | .condition, .unset => True
  | .counter, .counter _ _ _ => True
  | .items, .items _ none => True
  | .json, .data _ => True
  | .xml, .data _ => True
  | _, _ => False

def Cursor.Running : LoopKind → Cursor → Prop
  | .condition, .unset => True
  | .counter, .counter _ _ _ => True
  | .items, .items _ (some _) => True
  | .json, .data _ => True
  | .xml, .data _ => True
  | _, _ => False

namespace Action

variable {α β γ : Type} {p : Program} {kind : LoopKind} {cursor cursor' : Cursor} {c : Command}
  {source : Value} {format : Format}

/-- An action on the innermost loop, at a cursor, does what another action results in. -/
def Tracks (kind : LoopKind) (a : Action α) (b : Action β) (R : α → Cursor → β → Prop)
    (cursor : Cursor) : Prop :=
  ∀ (vars : Env) (call : Call) (outer : List Call) (q : Nat) (saved : Snapshot) (place : Nat),
    match effect b place vars with
    | (.ok y, vars') => ∃ x cursor', R x cursor' y ∧
        Yields a (still vars (call.looping kind cursor q saved) outer place) (.ok x)
          (still vars' (call.looping kind cursor' q saved) outer place)
    | (.error e, vars') => ∃ cursor',
        Yields a (still vars (call.looping kind cursor q saved) outer place) (.error e)
          (still vars' (call.looping kind cursor' q saved) outer place)

section Composition

variable {a : α → Action β} {b : α → Action γ} {R : β → Cursor → γ → Prop} {first : Action α}

theorem tracks_pure {x : β} {y : γ} (related : R x cursor y) :
    Tracks kind (pure x) (pure y) R cursor :=
  fun _ _ _ _ _ _ => ⟨x, cursor, related, yields_pure⟩

theorem tracks_throw (e : Failure) : Tracks kind (throw e) (throw e) R cursor :=
  fun _ _ _ _ _ _ => ⟨cursor, yields_throw⟩

theorem tracks_complain {k : Kind} {text : String} :
    Tracks kind (complain p k text) (complain p k text) R cursor :=
  fun _ _ _ _ _ _ => ⟨cursor, .get fun _ => yields_throw⟩

theorem tracks_bind (only : VarsOnly first) (rest : ∀ x, VarsOnly (b x))
    (tracks : ∀ x, Tracks kind (a x) (b x) R cursor) :
    Tracks kind (first >>= a) (first >>= b) R cursor := by
  intro vars call outer q saved place
  have yields : Yields first (still vars (call.looping kind cursor q saved) outer place)
      (effect first place vars).1
      (still (effect first place vars).2 (call.looping kind cursor q saved) outer place) :=
    only.yields rfl
  rw [effect_bind only rest]
  rcases out : effect first place vars with ⟨e | x, vars'⟩
  all_goals rw [out] at yields
  · exact ⟨cursor, yields.fail⟩
  · have further := tracks x vars' call outer q saved place
    dsimp only
    rcases out' : effect (b x) place vars' with ⟨e | y, vars''⟩
    all_goals rw [out'] at further
    · obtain ⟨cursor', fails⟩ := further
      exact ⟨cursor', yields.bind fails⟩
    · obtain ⟨z, cursor', related, does⟩ := further
      exact ⟨z, cursor', related, yields.bind does⟩

theorem tracks_after {x : α} {b : Action γ}
    (yields : ∀ vars call outer q saved place,
      Yields first (still vars (Call.looping call kind cursor q saved) outer place) (.ok x)
      (still vars (call.looping kind cursor' q saved) outer place))
    (tracks : Tracks kind (a x) b R cursor') : Tracks kind (first >>= a) b R cursor := by
  intro vars call outer q saved place
  have first := yields vars call outer q saved place
  have further := tracks vars call outer q saved place
  rcases out : effect b place vars with ⟨e | y, vars'⟩
  all_goals rw [out] at further
  · obtain ⟨cursor', fails⟩ := further
    exact ⟨cursor', first.bind fails⟩
  · obtain ⟨z, cursor', related, does⟩ := further
    exact ⟨z, cursor', related, first.bind does⟩

theorem tracks_setCursor {a : Unit → Action β} {b : Action γ}
    (tracks : Tracks kind (a ()) b R cursor') :
    Tracks kind (setCursor cursor' >>= a) b R cursor := by
  refine tracks_after (fun vars call outer q saved place => ?_) tracks
  exact yields_change (f := { kind := kind, cursor := cursor : Loop }.frame q saved) rfl

end Composition

theorem varsOnly_namesAssigned {text : String} : VarsOnly (namesAssigned p text) := by
  unfold namesAssigned
  split
  · split
    · exact varsOnly_pure
    · exact varsOnly_throw
    · exact varsOnly_fault
  · exact varsOnly_fault

theorem varsOnly_givenNames : VarsOnly (Loop.givenNames c) := by
  unfold Loop.givenNames
  split
  · exact varsOnly_pure
  · exact varsOnly_get (fun m => varsOnly_orError) fun m m' here _ => by simp only [here]

theorem varsOnly_itemName (c : Command) : VarsOnly (Loop.itemName c) :=
  varsOnly_get (fun m => varsOnly_orError) fun m m' here _ => by simp only [here]

theorem varsOnly_take (c : Command) (i : Nat) : VarsOnly (Loop.take c source i) := by
  refine varsOnly_bind varsOnly_orFault fun count => ?_
  split
  · exact varsOnly_bind varsOnly_orFault fun _ => varsOnly_assign
  · exact varsOnly_pure

theorem prepareCounter_eq (p : Program) (c : Command) : prepareCounter p c = (do
    require p c.target " 'for' requires: <init-stmt>; <condition>; <iter-stmt>."
    match Split.list ';' c.target with
    | [start, condition, step] =>
      setCursor (.counter start condition step)
      return addNew (← Loop.givenNames c) (← namesAssigned p start)
    | _ => complain p .engine " 'for' requires <init-stmt>; <condition>; <iter-stmt>.") := by
  unfold prepareCounter Loop.givenNames
  cases c.value.isEmpty with
  | true | false => rfl

theorem prepareItems_eq (p : Program) (c : Command) : prepareItems p c = (do
    require p c.target " 'foreach' requires a variable name."
    require p c.value " 'foreach' requires comma-separated values."
    let _ ← Loop.itemName c
    let found ← eval p ("[" ++ c.value ++ "]")
    setCursor (.items (← orFault (unfoldItems found)) none)
    return [c.target, "_i"]) := by
  unfold prepareItems Loop.itemName
  simp only [bind_assoc]

theorem tracks_file (suits : ∀ r, (Cursor.data r).Planned kind) :
    Tracks kind (prepareData p format c) (Loop.plan.file p c format)
      (fun names cursor y => y = (names, cursor) ∧ cursor.Planned kind) cursor := by
  unfold prepareData Loop.plan.file
  refine tracks_bind varsOnly_require
    (fun _ => varsOnly_bind varsOnly_loadReader fun _ => varsOnly_pure) fun _ => ?_
  unfold loadReader
  rcases (Reader.empty format).load p.limits p.files p.base c.target with ⟨e | names, reader⟩
  · exact tracks_setCursor (tracks_throw e)
  · exact tracks_setCursor (tracks_pure ⟨rfl, suits reader⟩)

theorem tracks_prepare (p : Program) (c : Command) (kind : LoopKind) :
    Tracks kind (rounds p c kind).prepare (Loop.plan p c kind)
      (fun names cursor y => y = (names, cursor) ∧ cursor.Planned kind)
      .unset := by
  cases kind with
  | condition =>
    exact tracks_bind varsOnly_require (fun _ => varsOnly_pure) fun _ => tracks_pure ⟨rfl, trivial⟩
  | counter =>
    show Tracks _ (prepareCounter p c) _ _ _
    rw [prepareCounter_eq]
    refine tracks_bind varsOnly_require (fun _ => ?_) fun _ => ?_
    · split
      · exact varsOnly_bind varsOnly_givenNames fun _ => varsOnly_bind varsOnly_namesAssigned
          fun _ => varsOnly_pure
      · exact varsOnly_complain
    · rcases Split.list ';' c.target with _ | ⟨start, _ | ⟨condition, _ | ⟨step, _ | _⟩⟩⟩
      · exact tracks_complain
      · exact tracks_complain
      · exact tracks_complain
      · refine tracks_setCursor (tracks_bind varsOnly_givenNames (fun _ => ?_) fun _ =>
          tracks_bind varsOnly_namesAssigned (fun _ => varsOnly_pure) fun _ => tracks_pure
            ⟨rfl, trivial⟩)
        exact varsOnly_bind varsOnly_namesAssigned fun _ => varsOnly_pure
      · exact tracks_complain
  | items =>
    show Tracks _ (prepareItems p c) _ _ _
    rw [prepareItems_eq]
    have source : VarsOnly (do
        let found ← eval p ("[" ++ c.value ++ "]")
        return ([c.target, "_i"], .items (← orFault (unfoldItems found)) none) : Action
          (List String × Cursor)) :=
      varsOnly_bind varsOnly_eval fun _ => varsOnly_bind varsOnly_orFault fun _ => varsOnly_pure
    have named := varsOnly_bind (varsOnly_itemName c) fun _ => source
    refine tracks_bind varsOnly_require
      (fun _ => varsOnly_bind varsOnly_require fun _ => named) fun _ =>
      tracks_bind varsOnly_require (fun _ => named) fun _ => tracks_bind (varsOnly_itemName c)
        (fun _ => source) fun _ =>
      tracks_bind varsOnly_eval (fun _ => ?_) fun _ => tracks_bind varsOnly_orFault
        (fun _ => varsOnly_pure) fun _ =>
      tracks_setCursor (tracks_pure ⟨rfl, trivial⟩)
    exact varsOnly_bind varsOnly_orFault fun _ => varsOnly_pure
  | json | xml => exact tracks_file fun _ => trivial

theorem tracks_take {i : Nat} :
    Tracks .items (takeItem c i) (do
      Loop.take c source i
      return .items source (some i)) (fun _ cursor y => y = cursor ∧ cursor.Running .items)
        (.items source (some i)) := by
  have tracks : Tracks .items (Loop.take c source i >>= fun _ => pure ())
      (Loop.take c source i >>= fun _ => pure (Cursor.items source (some i)))
      (fun _ cursor y => y = cursor ∧ cursor.Running .items) (.items source (some i)) :=
    tracks_bind (varsOnly_take c i) (fun _ => varsOnly_pure) fun _ => tracks_pure ⟨rfl, trivial⟩
  rw [bind_pure_unit] at tracks
  exact tracks_after (fun _ _ _ _ _ _ logs => ⟨logs, rfl⟩) (x := source) tracks

theorem tracks_start (planned : cursor.Planned kind) :
    Tracks kind (rounds p c kind).start (Loop.start p c cursor)
      (fun _ cursor y => y = cursor ∧ cursor.Running kind) cursor := by
  match kind, cursor, planned with
  | .condition, .unset, _ => exact tracks_pure ⟨rfl, trivial⟩
  | .counter, .counter start condition step, _ =>
    refine tracks_after (fun _ _ _ _ _ _ logs => ⟨logs, rfl⟩) (x := start) ?_
    exact tracks_bind varsOnly_eval (fun _ => varsOnly_pure) fun _ => tracks_pure ⟨rfl, trivial⟩
  | .items, .items source none, _ =>
    refine tracks_after (fun _ _ _ _ _ _ logs => ⟨logs, rfl⟩) (x := source) ?_
    exact tracks_setCursor tracks_take
  | .json, .data r, _ => exact tracks_pure ⟨rfl, trivial⟩
  | .xml, .data r, _ => exact tracks_pure ⟨rfl, trivial⟩

theorem tracks_advance (running : cursor.Running kind) :
    Tracks kind (rounds p c kind).advance (Loop.advance p c cursor)
      (fun _ cursor y => y = cursor ∧ cursor.Running kind)
      cursor := by
  match kind, cursor, running with
  | .condition, .unset, _ => exact tracks_pure ⟨rfl, trivial⟩
  | .counter, .counter start condition step, _ =>
    refine tracks_after (fun _ _ _ _ _ _ logs => ⟨logs, rfl⟩) (x := step) ?_
    exact tracks_bind varsOnly_eval (fun _ => varsOnly_pure) fun _ => tracks_pure ⟨rfl, trivial⟩
  | .items, .items source (some i), _ =>
    refine tracks_after (fun _ _ _ _ _ _ logs => ⟨logs, rfl⟩) (x := i) ?_
    refine tracks_after (fun _ _ _ _ _ _ logs => ⟨logs, rfl⟩) (x := source) ?_
    exact tracks_setCursor tracks_take
  | .json, .data r, _ => exact tracks_pure ⟨rfl, trivial⟩
  | .xml, .data r, _ => exact tracks_pure ⟨rfl, trivial⟩

theorem tracks_data {r : Reader} (suits : ∀ r, (Cursor.data r).Running kind) :
    Tracks kind (dataRounds p format c).goesOn (Loop.goesOn p c (.data r))
      (fun more cursor y => y = (more, cursor) ∧ cursor.Running kind) (.data r) := by
  refine tracks_after (fun _ _ _ _ _ _ logs => ⟨logs, rfl⟩) (x := r) ?_
  unfold Loop.goesOn
  dsimp only
  cases r.atEnd with
  | true => exact tracks_pure ⟨rfl, suits r⟩
  | false =>
    exact tracks_bind varsOnly_orError
      (fun _ => varsOnly_bind varsOnly_assign fun _ => varsOnly_pure) fun _ =>
      tracks_setCursor (tracks_bind varsOnly_assign (fun _ => varsOnly_pure) fun _ => tracks_pure
        ⟨rfl, suits _⟩)

theorem tracks_goesOn (running : cursor.Running kind) :
    Tracks kind (rounds p c kind).goesOn (Loop.goesOn p c cursor)
      (fun more cursor y => y = (more, cursor) ∧ cursor.Running kind) cursor := by
  match kind, cursor, running with
  | .condition, .unset, _ =>
    have tracks : Tracks .condition (holds p c.target >>= pure)
        (holds p c.target >>= fun more => pure (more, Cursor.unset))
        (fun more cursor y => y = (more, cursor) ∧ cursor.Running .condition) .unset :=
      tracks_bind varsOnly_holds (fun _ => varsOnly_pure) fun _ => tracks_pure ⟨rfl, trivial⟩
    rwa [bind_pure] at tracks
  | .counter, .counter start condition step, _ =>
    have tracks : Tracks .counter (holds p condition >>= pure)
        (holds p condition >>= fun more => pure (more, Cursor.counter start condition step))
        (fun more cursor y => y = (more, cursor) ∧ cursor.Running .counter)
        (.counter start condition step) :=
      tracks_bind varsOnly_holds (fun _ => varsOnly_pure) fun _ => tracks_pure ⟨rfl, trivial⟩
    rw [bind_pure] at tracks
    exact tracks_after (fun _ _ _ _ _ _ logs => ⟨logs, rfl⟩) (x := condition) tracks
  | .items, .items source (some i), _ =>
    refine tracks_after (fun _ _ _ _ _ _ logs => ⟨logs, rfl⟩) (x := i) ?_
    refine tracks_bind varsOnly_assign
      (fun _ => varsOnly_bind varsOnly_orFault fun _ => varsOnly_pure) fun _ => ?_
    refine tracks_after (fun _ _ _ _ _ _ logs => ⟨logs, rfl⟩) (x := source) ?_
    exact tracks_bind varsOnly_orFault (fun _ => varsOnly_pure) fun _ => tracks_pure ⟨rfl, trivial⟩
  | .json, .data r, _ => exact tracks_data fun _ => trivial
  | .xml, .data r, _ => exact tracks_data fun _ => trivial

end Action

end Runbook
