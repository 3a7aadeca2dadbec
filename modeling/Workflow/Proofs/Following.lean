import Workflow.Proofs.Tokenizing

/-! Following paths. A path that is cut in two leads to the same place, and where it leads nowhere, the obstacle tells
of the first segment that does not apply and of the value it was applied to. So a hint about a reference names the
longest part of it that finds something. -/

namespace Workflow

/-! ### Obstacles further on -/

namespace Obstacle

/-- The obstacle as it is met on a path that begins so many segments earlier. -/
def after (n : Nat) (o : Obstacle) : Obstacle := { o with position := n + o.position }

theorem after_zero (o : Obstacle) : o.after 0 = o := by rw [after, Nat.zero_add]

theorem later_after (n : Nat) (o : Obstacle) : (o.after n).later = o.after (n + 1) := by
  rw [later, after, after, Nat.add_right_comm]

theorem after_later (n : Nat) (o : Obstacle) : o.later.after n = o.after (n + 1) := by
  rw [later, after, after, Nat.add_assoc, Nat.add_comm 1]

end Obstacle

namespace Json

/-! ### One segment after the other -/

/-- Follows a path from a value on, where so many segments lead to. -/
def follow (position : Nat) (v : Json) : Path → Except Obstacle Json
  | [] => .ok v
  | segment :: rest =>
    match v.step? segment with
    | none => .error { v.obstacle with position := position }
    | some w => follow (position + 1) w rest

theorem traverse_cons_of_none {v : Json} {segment : Segment} (h : v.step? segment = none) (rest : Path) :
    v.traverse (segment :: rest) = .error v.obstacle := by
  rw [traverse, h]

theorem traverse_cons_of_some {v w : Json} {segment : Segment} (h : v.step? segment = some w) (rest : Path) :
    v.traverse (segment :: rest) = (w.traverse rest).mapError Obstacle.later := by
  rw [traverse, h]

theorem follow_eq (position : Nat) (v : Json) (path : Path) :
    v.follow position path = (v.traverse path).mapError (Obstacle.after position) := by
  induction path generalizing position v with
  | nil => rfl
  | cons segment rest ih =>
    rw [follow]
    cases hstep : v.step? segment with
    | none =>
      rw [traverse_cons_of_none hstep]
      rfl
    | some w =>
      rw [traverse_cons_of_some hstep]
      simp only [ih]
      cases w.traverse rest with
      | ok u => rfl
      | error o => exact congrArg Except.error (o.after_later position).symm

/-- A path is followed to the end of its first part, and from the value found there along the second. -/
theorem traverse_append (v : Json) (path rest : Path) :
    v.traverse (path ++ rest) =
      match v.traverse path with
      | .ok w => (w.traverse rest).mapError (Obstacle.after path.length)
      | .error o => .error o := by
  induction path generalizing v with
  | nil =>
    have hzero (x : Except Obstacle Json) : x.mapError (Obstacle.after 0) = x := by
      cases x with
      | ok w => rfl
      | error o => exact congrArg Except.error o.after_zero
    exact (hzero _).symm
  | cons segment path ih =>
    rw [List.cons_append]
    cases hstep : v.step? segment with
    | none => rw [traverse_cons_of_none hstep, traverse_cons_of_none hstep]
    | some w =>
      rw [traverse_cons_of_some hstep, traverse_cons_of_some hstep, ih]
      cases w.traverse path with
      | error o => rfl
      | ok u =>
        cases hu : u.traverse rest with
        | ok x => simp only [hu, Except.mapError]
        | error o =>
          simp only [hu, Except.mapError, List.length_cons]
          exact congrArg Except.error (o.later_after path.length)

/-! ### Where a path stops -/

def fieldNames : Json → List String
  | .obj fields => Assoc.keys fields
  | _ => []

def itemCount? : Json → Option Nat
  | .arr items => some items.length
  | _ => none

/-- A path stops at a value: it leads there, and the next segment does not apply. The obstacle tells how far that is and
describes the value. -/
structure StopsAt (v : Json) (path : Path) (o : Obstacle) (w : Json) (segment : Segment) : Prop where
  inside : o.position < path.length
  next : path[o.position]? = some segment
  reached : v.traverse (path.take o.position) = .ok w
  stuck : w.step? segment = none
  /-- No part of the path that is longer leads anywhere. -/
  longest : ∀ n, (∃ u, v.traverse (path.take n) = .ok u) ↔ n ≤ o.position
  parentType : o.parentType = w.typeName
  availableKeys : o.availableKeys = w.fieldNames
  listLength : o.listLength = w.itemCount?

theorem stopsAt_first {v : Json} {segment : Segment} (h : v.step? segment = none) (rest : Path) :
    v.StopsAt (segment :: rest) v.obstacle v segment where
  inside := Nat.zero_lt_succ _
  next := rfl
  reached := rfl
  stuck := h
  longest n := by
    cases n with
    | zero => exact iff_of_true ⟨v, rfl⟩ (Nat.le_refl 0)
    | succ n =>
      refine iff_of_false ?_ (Nat.not_succ_le_zero n)
      rintro ⟨u, hu⟩
      rw [List.take_succ_cons, traverse_cons_of_none h] at hu
      cases hu
  parentType := rfl
  availableKeys := by cases v <;> rfl
  listLength := by cases v <;> rfl

theorem StopsAt.later {v u w : Json} {first segment : Segment} {rest : Path} {o : Obstacle}
    (hstep : v.step? first = some u) (h : u.StopsAt rest o w segment) :
    v.StopsAt (first :: rest) o.later w segment where
  inside := Nat.succ_lt_succ h.inside
  next := h.next
  reached := by
    rw [Obstacle.later, List.take_succ_cons, traverse_cons_of_some hstep, h.reached]
    rfl
  stuck := h.stuck
  longest n := by
    cases n with
    | zero => exact iff_of_true ⟨v, rfl⟩ (Nat.zero_le _)
    | succ n =>
      rw [List.take_succ_cons, traverse_cons_of_some hstep, Obstacle.later, Nat.succ_le_succ_iff, ← h.longest n]
      exact exists_congr fun x => mapError_eq_ok
  parentType := h.parentType
  availableKeys := h.availableKeys
  listLength := h.listLength

theorem stopsAt_of_error {v : Json} {path : Path} {o : Obstacle} (h : v.traverse path = .error o) :
    ∃ w segment, v.StopsAt path o w segment := by
  induction path generalizing v o with
  | nil => cases h
  | cons first rest ih =>
    cases hstep : v.step? first with
    | none =>
      rw [traverse_cons_of_none hstep] at h
      cases h
      exact ⟨v, first, stopsAt_first hstep rest⟩
    | some u =>
      rw [traverse_cons_of_some hstep] at h
      cases hu : u.traverse rest with
      | ok x =>
        rw [hu] at h
        cases h
      | error earlier =>
        rw [hu] at h
        cases h
        obtain ⟨w, segment, hstops⟩ := ih hu
        exact ⟨w, segment, hstops.later hstep⟩

end Json

/-! ### Hints -/

namespace Reference

def upTo (r : Reference) (n : Nat) : String := r.base ++ Path.render (r.path.take n)

def cut (r : Reference) (n : Nat) : Reference := ⟨r.upTo n, r.base, r.path.take n⟩

/-- What is written of a reference of the grammar is read as the reference that is cut off there. -/
theorem ofExpr_upTo {r : Reference} (h : r.InGrammar) (n : Nat) : ofExpr (r.upTo n) = r.cut n := by
  obtain ⟨hbase, hpath⟩ := h.spelled.legible
  have hr : Path.parse r.expr = (r.base, r.path) := by
    conv_rhs => rw [h.read]
    rfl
  rw [hr] at hbase hpath
  rw [ofExpr, upTo, Path.parse_render hbase fun s hs => hpath s (List.mem_of_mem_take hs)]
  rfl

end Reference

/-- Tells what stands at a named place, and that a segment does not apply to it. -/
def stuckHint (named : String) (w : Json) (segment : Segment) : String :=
  match w with
  | .obj (first :: rest) =>
    let fields := Text.join ", " (Assoc.keys (first :: rest))
    s!"Available fields on '{named}': {fields}"
  | .arr items =>
    let size := items.length
    s!"'{named}' is a list of {size} item(s); index it like " ++ "$\x7b" ++ named ++ "[0]\x7d"
  | w =>
    let kind := w.typeName
    let missing := Text.trimStart '.' segment.render
    s!"'{named}' is a {kind} and has no field '{missing}'"

namespace Scope

variable {scope : Scope} {r : Reference}

/-- A hint about a reference that finds nothing, although its base does: it names the reference cut off after so many
segments, which is the longest that finds something, and says what that is and which segment does not apply to it. -/
structure Names (scope : Scope) (r : Reference) (n : Nat) (w : Json) (segment : Segment) : Prop where
  found : scope.lookup? (r.cut n) = some w
  longest : ∀ m, (scope.lookup? (r.cut m)).isSome ↔ m ≤ n
  next : r.path[n]? = some segment
  stuck : w.step? segment = none
  hint : scope.hint r = stuckHint (r.upTo n) w segment
  read : r.InGrammar → .ofExpr (r.upTo n) = r.cut n

theorem lookup?_cut {root : Json} (hroot : scope.root? r.base = some root) (n : Nat) :
    scope.lookup? (r.cut n) = (root.traverse (r.path.take n)).toOption := by
  rw [lookup?, Reference.cut, hroot, Option.bind_some]

theorem isSome_lookup?_cut {root : Json} (hroot : scope.root? r.base = some root) (n : Nat) :
    (scope.lookup? (r.cut n)).isSome ↔ ∃ u, root.traverse (r.path.take n) = .ok u := by
  rw [lookup?_cut hroot]
  cases root.traverse (r.path.take n) with
  | ok u => exact iff_of_true rfl ⟨u, rfl⟩
  | error o => exact iff_of_false Bool.false_ne_true fun ⟨u, hu⟩ => by cases hu

theorem obstacleHint_eq {root w : Json} {o : Obstacle} {segment : Segment} (h : root.StopsAt r.path o w segment) :
    obstacleHint r o = stuckHint (r.upTo o.position) w segment := by
  have hsegment : (r.path.drop o.position).take 1 = [segment] := by
    rw [List.take_one_drop_eq_of_lt_length h.inside, List.cons.injEq]
    exact ⟨Option.some.inj ((List.getElem?_eq_getElem h.inside).symm.trans h.next), rfl⟩
  have hmissing : Path.render [segment] = segment.render := by
    rw [Path.render_cons, Path.render, List.map_nil, String.join_nil, String.append_empty]
  unfold obstacleHint
  rw [h.availableKeys, h.listLength, h.parentType, hsegment, hmissing]
  cases w with
  | obj fields => cases fields <;> rfl
  | _ => rfl

theorem names_of_error {root : Json} {o : Obstacle} (hroot : scope.root? r.base = some root)
    (h : root.traverse r.path = .error o) : ∃ w segment, scope.Names r o.position w segment := by
  obtain ⟨w, segment, hstops⟩ := Json.stopsAt_of_error h
  have hhint : scope.hint r = stuckHint (r.upTo o.position) w segment := by
    rw [hint, hroot, ← obstacleHint_eq hstops]
    simp only [h]
  refine ⟨w, segment, ?_, ?_, hstops.next, hstops.stuck, hhint, fun hr => Reference.ofExpr_upTo hr _⟩
  · rw [lookup?_cut hroot, hstops.reached]
    rfl
  · exact fun m => (isSome_lookup?_cut hroot m).trans (hstops.longest m)

end Scope

structure Json.Follows (v : Json) (path : Path) : Prop where
  /-- To count the segments on the way comes to the same. -/
  counted : v.follow 0 path = v.traverse path
  composed : ∀ rest, v.traverse (path ++ rest) =
    match v.traverse path with
    | .ok w => (w.traverse rest).mapError (Obstacle.after path.length)
    | .error o => .error o
  stopped : ∀ o, v.traverse path = .error o → ∃ w segment, v.StopsAt path o w segment
  hinted : ∀ (scope : Scope) (r : Reference) (o : Obstacle), scope.root? r.base = some v → r.path = path →
    v.traverse path = .error o → ∃ w segment, scope.Names r o.position w segment

/-- Paths compose, and a path that leads nowhere stops inside itself, at the value that the obstacle describes. -/
theorem paths_stop_in_place (v : Json) (path : Path) : v.Follows path where
  counted := by
    rw [Json.follow_eq]
    cases v.traverse path with
    | ok w => rfl
    | error o => exact congrArg Except.error o.after_zero
  composed rest := v.traverse_append path rest
  stopped _ h := Json.stopsAt_of_error h
  hinted _ r _ hroot hpath h := by
    subst hpath
    exact Scope.names_of_error hroot h

/-- The text holds a dict that has the field, and the list in it has no second element. -/
example :
    let scope : Scope := ⟨[], [("run", .obj [("stdout", .str " \x7b\"rows\": [1]\x7d ")])]⟩
    let r : Reference := .ofExpr "run.stdout.rows[1].name"
    (scope.lookup? (r.cut 2)).isSome = true ∧ (scope.lookup? (r.cut 3)).isSome = false ∧
      scope.hint r = "'run.stdout.rows' is a list of 1 item(s); index it like $\x7brun.stdout.rows[0]\x7d" := by
  decide +kernel

end Workflow
