import StackScript.Machine.Trap
import StackScript.Target.Instruction

/-!
# Jump tables

The markers of conditionals in a flat body are matched once. The beginning of a conditional jumps,
when its condition fails, to the instruction after the start of its second part, or to its end if
there is no second part; the start of the second part jumps to the end.

## Main definitions

* `OpenMarker`: a conditional whose end has not been seen.
* `JumpTable`: where the markers of a body jump to.
* `jumpTable`: the jump table of a body.

## Main results

* `forward_of_jumpTable`: the jumps of a table lead ahead.
* `exists_jump_of_jumpTable`: every marker that jumps has a jump in the table of its body.
-/

namespace StackScript

/-- A conditional whose end has not been seen: the places of its beginning and of the start of its
second part. -/
structure OpenMarker where
  start : Nat
  second : Option Nat := none
  deriving DecidableEq, Repr

/-- Where the markers of a body jump to, by their places. -/
abbrev JumpTable := List (Nat × Nat)

/-- The jumps of a conditional that ends at a place. -/
def OpenMarker.jumps (marker : OpenMarker) (stop : Nat) : JumpTable :=
  match marker.second with
  | some second => [(marker.start, second + 1), (second, stop)]
  | none => [(marker.start, stop)]

/-- Matches the markers from a place on: `opened` holds the conditionals around it, from the inside
out. -/
def matchMarkers (index : Nat) (opened : List OpenMarker) :
    List Instr → Except Trap JumpTable
  | [] => if opened.isEmpty then .ok [] else .error .unterminatedIf
  | .openIf :: rest => matchMarkers (index + 1) ({ start := index } :: opened) rest
  | .openElse :: rest =>
    match opened with
    | ⟨start, none⟩ :: outer => matchMarkers (index + 1) (⟨start, some index⟩ :: outer) rest
    | _ => .error (.unmatchedElse index)
  | .closeIf :: rest =>
    match opened with
    | marker :: outer => do
      let others ← matchMarkers (index + 1) outer rest
      return marker.jumps index ++ others
    | [] => .error (.unmatchedEnd index)
  | .const _ :: rest => matchMarkers (index + 1) opened rest
  | .call _ :: rest => matchMarkers (index + 1) opened rest
  | .plain _ _ :: rest => matchMarkers (index + 1) opened rest

/-- The jump table of a body. -/
def jumpTable (body : List Instr) : Except Trap JumpTable :=
  matchMarkers 0 [] body

/-! ### Every marker has a jump ahead -/

/-- All jumps lead ahead of the place they start from. -/
def JumpTable.Forward (jumps : JumpTable) : Prop :=
  ∀ jump ∈ jumps, jump.1 < jump.2

/-- The markers of an open conditional stand in order before a place. -/
def OpenMarker.Before (marker : OpenMarker) (index : Nat) : Prop :=
  marker.start < index ∧ ∀ second ∈ marker.second, marker.start ≤ second ∧ second < index

theorem OpenMarker.Before.succ {marker : OpenMarker} {index : Nat} (h : marker.Before index) :
    marker.Before (index + 1) := by
  refine ⟨Nat.lt_succ_of_lt h.1, fun second hsecond => ?_⟩
  obtain ⟨hstart, hlt⟩ := h.2 second hsecond
  exact ⟨hstart, Nat.lt_succ_of_lt hlt⟩

theorem OpenMarker.Before.forward_jumps {marker : OpenMarker} {index : Nat}
    (h : marker.Before index) : JumpTable.Forward (marker.jumps index) := by
  obtain ⟨start, second⟩ := marker
  cases second with
  | none => exact List.forall_mem_singleton.mpr h.1
  | some second =>
    obtain ⟨hstart, hlt⟩ := h.2 second rfl
    refine List.forall_mem_cons.mpr ⟨Nat.lt_succ_of_le hstart, ?_⟩
    exact List.forall_mem_singleton.mpr hlt

theorem forward_of_matchMarkers {body : List Instr} {index : Nat} {opened : List OpenMarker}
    {jumps : JumpTable} (hopened : ∀ marker ∈ opened, marker.Before index)
    (h : matchMarkers index opened body = .ok jumps) : jumps.Forward := by
  -- An open marker stands before the place that is read, so the jump recorded when it closes
  -- goes forward.
  induction body generalizing index opened jumps with
  | nil =>
    unfold matchMarkers at h
    split at h
    · cases h
      exact List.forall_mem_nil _
    · cases h
  | cons instr body ih =>
    have hlater : ∀ marker ∈ opened, marker.Before (index + 1) := fun marker hmarker =>
      (hopened marker hmarker).succ
    cases instr with
    | openIf =>
      refine ih (List.forall_mem_cons.mpr ⟨⟨Nat.lt_succ_self index, ?_⟩, hlater⟩) h
      exact fun _ hnone => by cases hnone
    | openElse =>
      -- a mark outside a conditional is refused, and so is a second one in the same conditional
      rcases opened with _ | ⟨⟨start, _ | second⟩, outer⟩
      · cases h
      · obtain ⟨hfirst, houter⟩ := List.forall_mem_cons.mp hlater
        have hstart := (List.forall_mem_cons.mp hopened).1.1
        have hmarker : OpenMarker.Before ⟨start, some index⟩ (index + 1) := by
          refine ⟨hfirst.1, ?_⟩
          rintro _ ⟨⟩
          exact ⟨Nat.le_of_lt hstart, Nat.lt_succ_self index⟩
        exact ih (List.forall_mem_cons.mpr ⟨hmarker, houter⟩) h
      · cases h
    | closeIf =>
      rcases opened with _ | ⟨marker, outer⟩
      · cases h
      · obtain ⟨hmarker, -⟩ := List.forall_mem_cons.mp hopened
        rw [matchMarkers] at h
        cases hothers : matchMarkers (index + 1) outer body with
        | error trap =>
          rw [hothers] at h
          cases h
        | ok others =>
          rw [hothers] at h
          cases h
          have hrest := ih (List.forall_mem_cons.mp hlater).2 hothers
          exact List.forall_mem_append.mpr ⟨hmarker.forward_jumps, hrest⟩
    | const value => exact ih hlater h
    | call name => exact ih hlater h
    | plain mnemonic operand => exact ih hlater h

/-- The jumps of a table lead ahead. -/
theorem forward_of_jumpTable {body : List Instr} {jumps : JumpTable}
    (h : jumpTable body = .ok jumps) : jumps.Forward :=
  forward_of_matchMarkers (List.forall_mem_nil _) h

/-- The places of a conditional that jump. -/
def OpenMarker.places (marker : OpenMarker) : List Nat :=
  marker.start :: marker.second.toList

theorem OpenMarker.fst_jumps (marker : OpenMarker) (stop : Nat) :
    (marker.jumps stop).map Prod.fst = marker.places := by
  rcases marker with ⟨start, _ | second⟩ <;> rfl

/-- Whether an instruction is a marker that jumps. -/
def Instr.jumps : Instr → Bool
  | openIf | openElse => true
  | _ => false

/-- The places, from `index` on, of the markers that jump. -/
def jumpPlaces (index : Nat) : List Instr → List Nat
  | [] => []
  | instr :: rest =>
    if instr.jumps then index :: jumpPlaces (index + 1) rest else jumpPlaces (index + 1) rest

theorem mem_jumpPlaces {body : List Instr} {place : Nat} {instr : Instr} (index : Nat)
    (hat : body[place]? = some instr) (hjumps : instr.jumps = true) :
    index + place ∈ jumpPlaces index body := by
  induction body generalizing index place with
  | nil => simp at hat
  | cons first body ih =>
    unfold jumpPlaces
    cases place with
    | zero =>
      have hfirst : first = instr := by simpa using hat
      simp [hfirst, hjumps]
    | succ place =>
      have hrest : index + 1 + place ∈ jumpPlaces (index + 1) body :=
        ih (index + 1) (by simpa using hat)
      rw [show index + (place + 1) = index + 1 + place by omega]
      split
      · exact List.mem_cons_of_mem _ hrest
      · exact hrest

/-- A table has jumps for the conditionals that are open and for the markers that are to come. -/
theorem subset_of_matchMarkers {body : List Instr} {index : Nat} {opened : List OpenMarker}
    {jumps : JumpTable} (h : matchMarkers index opened body = .ok jumps) :
    opened.flatMap OpenMarker.places ++ jumpPlaces index body ⊆ jumps.map Prod.fst := by
  -- A marker is kept among the open ones until its conditional ends, which records its jumps.
  induction body generalizing index opened jumps with
  | nil =>
    unfold matchMarkers at h
    split at h
    · rename_i hopened
      rw [List.isEmpty_iff.mp hopened]
      exact List.nil_subset _
    · cases h
  | cons instr body ih =>
    cases instr with
    | openIf =>
      refine List.Subset.trans (fun place hplace => ?_) (ih h)
      simp only [jumpPlaces, Instr.jumps, List.mem_append, List.mem_cons, List.flatMap_cons,
        OpenMarker.places, Option.toList, List.not_mem_nil] at hplace ⊢
      grind
    | openElse =>
      rcases opened with _ | ⟨⟨start, _ | second⟩, outer⟩
      · cases h
      · refine List.Subset.trans (fun place hplace => ?_) (ih h)
        simp only [jumpPlaces, Instr.jumps, List.mem_append, List.mem_cons, List.flatMap_cons,
          OpenMarker.places, Option.toList, List.not_mem_nil] at hplace ⊢
        grind
      · cases h
    | closeIf =>
      rcases opened with _ | ⟨marker, outer⟩
      · cases h
      · rw [matchMarkers] at h
        cases hothers : matchMarkers (index + 1) outer body with
        | error trap =>
          rw [hothers] at h
          cases h
        | ok others =>
          rw [hothers] at h
          cases h
          rw [List.flatMap_cons, List.append_assoc, List.map_append, marker.fst_jumps]
          exact List.append_subset.mpr ⟨List.subset_append_left _ _,
            List.subset_append_of_subset_right _ (ih hothers)⟩
    | const value => exact ih h
    | call name => exact ih h
    | plain mnemonic operand => exact ih h

/-- Every marker of a body that jumps has a jump in the table of that body, and it leads ahead. -/
theorem exists_jump_of_jumpTable {body : List Instr} {jumps : JumpTable}
    (h : jumpTable body = .ok jumps) {place : Nat} {instr : Instr} (hat : body[place]? = some instr)
    (hjumps : instr.jumps = true) : ∃ next, jumps.lookup place = some next ∧ place < next := by
  have hplace : place ∈ jumps.map Prod.fst := by
    have hmem := mem_jumpPlaces 0 hat hjumps
    rw [Nat.zero_add] at hmem
    exact subset_of_matchMarkers h hmem
  obtain ⟨jump, hjump, hkey⟩ := List.mem_map.mp hplace
  have hsome : (jumps.lookup place).isSome = true :=
    List.lookup_isSome_iff.mpr ⟨jump, hjump, by simp [hkey]⟩
  obtain ⟨next, hlookup⟩ := Option.isSome_iff_exists.mp hsome
  obtain ⟨before, after, hsplit, -⟩ := List.lookup_eq_some_iff.mp hlookup
  exact ⟨next, hlookup, forward_of_jumpTable h (place, next) (by simp [hsplit])⟩

end StackScript
