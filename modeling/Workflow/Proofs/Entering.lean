import Workflow.Proofs.Following
import Workflow.Proofs.Transparency

/-! Going into values. An index and the field that is written with its digits lead to the same place, whether the value is
a dict, a list or a text that holds one of these. What a text holds is never a text again, so that a segment goes through
one text at most. -/

namespace Workflow

/-! ### Segments that lead to the same place -/

/-- The segments are the same, or one is an index and the other the field that is written with its digits. -/
inductive Segment.Interchanges : Segment → Segment → Prop
  | same (s : Segment) : Interchanges s s
  | written {n : Nat} (h : n ≤ Text.wordMax) : Interchanges (.index n) (.field (Text.ofNat n))
  | indexed {n : Nat} (h : n ≤ Text.wordMax) : Interchanges (.field (Text.ofNat n)) (.index n)

namespace Json

/-- A dict has the digits for a key, and a list reads them as its index. -/
theorem child?_ofNat {n : Nat} (h : n ≤ Text.wordMax) (v : Json) :
    v.child? (.field (Text.ofNat n)) = v.child? (.index n) := by
  cases v with
  | arr items =>
    have hword : Text.word? (Text.ofNat n).toList = some n := by
      rw [Text.ofNat, String.toList_ofList, Text.word?_toDigits h]
    rw [child?, child?, hword, Option.bind_some]
  | _ => rfl

theorem child?_interchanged {s t : Segment} (h : s.Interchanges t) (v : Json) : v.child? t = v.child? s := by
  cases h with
  | same => rfl
  | written h => exact v.child?_ofNat h
  | indexed h => exact (v.child?_ofNat h).symm

theorem step?_interchanged {s t : Segment} (h : s.Interchanges t) (v : Json) : v.step? t = v.step? s := by
  unfold step?
  split
  · exact Option.bind_congr fun w _ => w.child?_interchanged h
  · exact child?_interchanged h _

/-- Whatever is found, and whatever the obstacle is otherwise, does not change. -/
theorem traverse_interchanged {path path' : Path} (h : List.Forall₂ Segment.Interchanges path path') (v : Json) :
    v.traverse path' = v.traverse path := by
  induction h generalizing v with
  | nil => rfl
  | cons hs _ ih =>
    rw [traverse, traverse, step?_interchanged hs]
    cases v.step? _ with
    | none => rfl
    | some w => simp only [ih w]

/-! ### What a text holds -/

theorem not_isScalar_arr (items : List Json) : ¬ (Json.arr items).IsScalar := by
  intro h
  cases h.1

theorem not_isScalar_obj (fields : List (String × Json)) : ¬ (Json.obj fields).IsScalar := by
  intro h
  cases h.2

theorem not_isScalar_of_readValue {fuel depth : Nat} {cs rest : List Char} {v : Json} (hcs : Opens cs)
    (h : readValue fuel (depth + 1) cs = some (v, rest)) : ¬ v.IsScalar := by
  obtain ⟨tail, rfl | rfl⟩ := hcs
  · rw [readValue, skipBlank_cons (by decide)] at h
    simp only at h
    split at h
    · cases h
      exact not_isScalar_arr _
    · obtain ⟨_, _, heq⟩ := Option.map_eq_some_iff.mp h
      cases heq
      exact not_isScalar_arr _
  · rw [readValue, skipBlank_cons (by decide)] at h
    simp only at h
    split at h
    · cases h
      exact not_isScalar_obj _
    · obtain ⟨_, _, heq⟩ := Option.map_eq_some_iff.mp h
      cases heq
      exact not_isScalar_obj _

/-- A text that begins like a list or a dict is one, if it can be read. -/
theorem not_isScalar_of_readChars {cs : List Char} {v : Json} (hcs : Opens cs) (h : readChars cs = some v) :
    ¬ v.IsScalar := by
  unfold readChars at h
  split at h
  · rename_i w rest hread
    split at h
    · cases h
      exact not_isScalar_of_readValue hcs hread
    · cases h
  · cases h

theorem ofContainerText?_eq_some_iff {text : String} {w : Json} :
    ofContainerText? text = some w ↔
      Opens (Text.trimChars text.toList) ∧ readChars (Text.trimChars text.toList) = some w := by
  constructor
  · intro h
    unfold ofContainerText? at h
    split at h
    · rename_i rest htrim
      rw [htrim]
      exact ⟨⟨rest, .inr rfl⟩, h⟩
    · rename_i rest htrim
      rw [htrim]
      exact ⟨⟨rest, .inl rfl⟩, h⟩
    · cases h
  · rintro ⟨hopens, hread⟩
    rw [ofContainerText?_eq rfl hopens, hread]

theorem not_isScalar_of_ofContainerText? {text : String} {w : Json} (h : ofContainerText? text = some w) :
    ¬ w.IsScalar := by
  obtain ⟨hopens, hread⟩ := ofContainerText?_eq_some_iff.mp h
  exact not_isScalar_of_readChars hopens hread

theorem asString?_of_container {v : Json} (h : ¬ v.IsScalar) : v.asString? = none := by
  cases v with
  | str text => exact absurd ⟨rfl, rfl⟩ h
  | _ => rfl

/-! ### Through texts -/

/-- What a segment finds in a value, after so many texts were read. Whatever a text holds is gone into in its place, and
were it a text, that would be read in turn. -/
inductive Enters (segment : Segment) : Nat → Json → Option Json → Prop
  | child {v : Json} (h : v.asString? = none) : Enters segment 0 v (v.child? segment)
  | closed {text : String} (h : ofContainerText? text = none) : Enters segment 1 (.str text) none
  | inside {texts : Nat} {text : String} {w : Json} {found : Option Json} (h : ofContainerText? text = some w)
      (rest : Enters segment texts w found) : Enters segment (texts + 1) (.str text) found

def textsRead (v : Json) : Nat := if v.asString?.isSome then 1 else 0

theorem textsRead_le_one (v : Json) : v.textsRead ≤ 1 := by
  unfold textsRead
  split <;> decide

theorem enters_iff {segment : Segment} {texts : Nat} {v : Json} {found : Option Json} :
    Enters segment texts v found ↔ texts = v.textsRead ∧ found = v.step? segment := by
  constructor
  · intro h
    cases h with
    | child h =>
      cases v with
      | str text => cases h
      | _ => exact ⟨rfl, rfl⟩
    | closed h =>
      rw [step?, h]
      exact ⟨rfl, rfl⟩
    | inside h rest =>
      rw [step?, h]
      -- what the text holds is a list or a dict, so no further text is read
      cases rest with
      | child => exact ⟨rfl, rfl⟩
      | closed | inside => cases asString?_of_container (not_isScalar_of_ofContainerText? h)
  · rintro ⟨rfl, rfl⟩
    cases v with
    | str text =>
      rw [step?]
      cases h : ofContainerText? text with
      | none => exact .closed h
      | some w => exact .inside h (.child (asString?_of_container (not_isScalar_of_ofContainerText? h)))
    | _ => exact .child rfl

/-- A segment goes into a value in one way only, and one text at most is read for it. -/
structure EntersOnce (v : Json) (segment : Segment) : Prop where
  enters : ∃ texts, Enters segment texts v (v.step? segment)
  only : ∀ texts found, Enters segment texts v found → texts ≤ 1 ∧ found = v.step? segment

theorem entersOnce (v : Json) (segment : Segment) : v.EntersOnce segment where
  enters := ⟨_, enters_iff.mpr ⟨rfl, rfl⟩⟩
  only texts found h := by
    obtain ⟨rfl, rfl⟩ := enters_iff.mp h
    exact ⟨v.textsRead_le_one, rfl⟩

end Json

/-- Paths that differ only in how numbers are written lead from every value to the same place, or stop at the same
obstacle. A segment on such a path goes through one text at most, since a text that begins like a list or a dict holds one
if it can be read. -/
theorem numbers_lead_alike {path path' : Path} (h : List.Forall₂ Segment.Interchanges path path') :
    (∀ v : Json, v.traverse path' = v.traverse path ∧ v.follow 0 path' = v.follow 0 path) ∧
      (∀ (v : Json) (segment : Segment), v.EntersOnce segment) ∧
      ∀ (text : String) (w : Json), Json.Opens (Text.trimChars text.toList) →
        Json.readChars (Text.trimChars text.toList) = some w →
          (∃ items, w = .arr items) ∨ ∃ fields, w = .obj fields := by
  refine ⟨fun v => ?_, Json.entersOnce, fun text w hopens hread => ?_⟩
  · have htraverse := Json.traverse_interchanged h v
    exact ⟨htraverse, by rw [Json.follow_eq, Json.follow_eq, htraverse]⟩
  · have hcontainer := Json.not_isScalar_of_readChars hopens hread
    cases w with
    | arr items => exact .inl ⟨items, rfl⟩
    | obj fields => exact .inr ⟨fields, rfl⟩
    | _ => exact absurd ⟨rfl, rfl⟩ hcontainer

/-- A dict whose key is a number, and in it a list with a text that holds a list and a dict. -/
def numbered : Json := .obj [("0", .arr [.null, .str " [[7, \x7b\"1\": true\x7d]]"])]

def indexPath : Path := [.index 0, .index 1, .index 0, .index 1, .index 1]

def fieldPath : Path :=
  [.field (Text.ofNat 0), .index 1, .field (Text.ofNat 0), .field (Text.ofNat 1), .field (Text.ofNat 1)]

/-- Both ways find the member of the innermost dict, and beyond it both stop at the same segment. -/
theorem numbers_lead_alike_numbered :
    (Path.parse "x[0][1][0][1][1]").2 = indexPath ∧ (Path.parse "x.0[1].0.1.1").2 = fieldPath ∧
      List.Forall₂ Segment.Interchanges (indexPath ++ [.index 2]) (fieldPath ++ [.field (Text.ofNat 2)]) ∧
      numbered.traverse fieldPath = .ok (.bool true) ∧
      numbered.traverse (fieldPath ++ [.field (Text.ofNat 2)]) = .error ⟨5, "bool", [], none⟩ := by
  have hpath : List.Forall₂ Segment.Interchanges indexPath fieldPath :=
    .cons (.written (by decide)) (.cons (.same _) (.cons (.written (by decide)) (.cons (.written (by decide))
      (.cons (.written (by decide)) .nil))))
  have hlonger := List.rel_append hpath (.cons (.written (n := 2) (by decide)) .nil)
  have hfound : numbered.traverse indexPath = .ok (.bool true) := by decide +kernel
  have hstopped : numbered.traverse (indexPath ++ [.index 2]) = .error ⟨5, "bool", [], none⟩ := by decide +kernel
  refine ⟨by decide +kernel, by decide +kernel, hlonger, ?_, ?_⟩
  · exact ((numbers_lead_alike hpath).1 numbered).1.trans hfound
  · exact ((numbers_lead_alike hlonger).1 numbered).1.trans hstopped

end Workflow
