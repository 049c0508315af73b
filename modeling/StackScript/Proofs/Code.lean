import StackScript.Machine.JumpTable

/-!
# Structured code

A body is a flat list in which conditionals are written by markers. When the markers nest, the body
is the writing of a tree: actions in sequence and conditionals with one or two parts. This file
gives the trees, the condition under which a body is one, and the jump table of a tree.

## Main definitions

* `Action`: an instruction that is no marker.
* `Code`: actions and conditionals in sequence, `Code.flatten` the body that writes them.
* `WellNested`: every second part belongs to an open conditional that has none yet, every end closes
  an open conditional, and none is left open.
* `Code.jumps`: the jumps of code that starts at a place.

## Main results

* `wellNested_iff_exists_code`: a body is well nested exactly when it writes some code.
* `jumpTable_flatten`: the jump table of a body that writes code is that of the code.
-/

namespace StackScript

/-- An instruction that is no marker. -/
inductive Action where
  | const (value : Datum)
  | call (name : Text)
  | plain (mnemonic : Text) (operand : Datum)
  deriving DecidableEq

namespace Action

/-- An action as an instruction. -/
def instr : Action → Instr
  | const value => .const value
  | call name => .call name
  | plain mnemonic operand => .plain mnemonic operand

/-- A mnemonic without an immediate. -/
def bare (mnemonic : Text) : Action := plain mnemonic .null

/-- A mnemonic with a name. -/
def named (mnemonic name : Text) : Action := plain mnemonic (.text name)

@[simp] theorem instr_bare (mnemonic : Text) : (bare mnemonic).instr = .bare mnemonic := rfl

@[simp] theorem instr_named (mnemonic name : Text) :
    (named mnemonic name).instr = .named mnemonic name := rfl

end Action

/-- Actions and conditionals in sequence. -/
inductive Code where
  | done
  | act (action : Action) (rest : Code)
  /-- A conditional without a second part. -/
  | ifThen (first rest : Code)
  | ifElse (first second rest : Code)
  deriving DecidableEq

namespace Code

/-- The body that writes some code. -/
def flatten : Code → List Instr
  | done => []
  | act action rest => action.instr :: rest.flatten
  | ifThen first rest => .openIf :: first.flatten ++ .closeIf :: rest.flatten
  | ifElse first second rest =>
    .openIf :: first.flatten ++ .openElse :: second.flatten ++ .closeIf :: rest.flatten

/-- Some code and then some more. -/
def append : Code → Code → Code
  | done, more => more
  | act action rest, more => act action (rest.append more)
  | ifThen first rest, more => ifThen first (rest.append more)
  | ifElse first second rest, more => ifElse first second (rest.append more)

instance : Append Code := ⟨append⟩

/-- Actions in sequence. -/
def acts : List Action → Code
  | [] => done
  | action :: rest => act action (acts rest)

@[simp] theorem done_append (c : Code) : done ++ c = c := rfl

@[simp] theorem act_append (action : Action) (rest c : Code) :
    act action rest ++ c = act action (rest ++ c) := rfl

@[simp] theorem ifThen_append (first rest c : Code) :
    ifThen first rest ++ c = ifThen first (rest ++ c) := rfl

@[simp] theorem ifElse_append (first second rest c : Code) :
    ifElse first second rest ++ c = ifElse first second (rest ++ c) := rfl

@[simp] theorem append_done (c : Code) : c ++ done = c := by
  induction c with
  | done => rfl
  | act action rest ih => rw [act_append, ih]
  | ifThen first rest _ ih => rw [ifThen_append, ih]
  | ifElse first second rest _ _ ih => rw [ifElse_append, ih]

theorem append_assoc (c d e : Code) : c ++ d ++ e = c ++ (d ++ e) := by
  induction c with
  | done => rfl
  | act action rest ih => simp [ih]
  | ifThen first rest _ ih => simp [ih]
  | ifElse first second rest _ _ ih => simp [ih]

@[simp] theorem flatten_append (c d : Code) : (c ++ d).flatten = c.flatten ++ d.flatten := by
  induction c with
  | done => rfl
  | act action rest ih => simp [flatten, ih]
  | ifThen first rest _ ih => simp [flatten, ih]
  | ifElse first second rest _ _ ih => simp [flatten, ih]

@[simp] theorem flatten_acts (actions : List Action) :
    (acts actions).flatten = actions.map Action.instr := by
  induction actions with
  | nil => rfl
  | cons action rest ih => simp [acts, flatten, ih]

end Code

/-! ### Nesting -/

/-- Whether the markers of a body nest inside open conditionals. For each of these, from the inside
out, `opened` tells whether its second part has started. -/
def nestsIn (opened : List Bool) : List Instr → Bool
  | [] => opened.isEmpty
  | .openIf :: rest => nestsIn (false :: opened) rest
  | .openElse :: rest =>
    match opened with
    | false :: outer => nestsIn (true :: outer) rest
    | _ => false
  | .closeIf :: rest =>
    match opened with
    | _ :: outer => nestsIn outer rest
    | [] => false
  | .const _ :: rest => nestsIn opened rest
  | .call _ :: rest => nestsIn opened rest
  | .plain _ _ :: rest => nestsIn opened rest

/-- Every second part of a body belongs to an open conditional that has none yet, every end closes an
open conditional, and none is left open. -/
def WellNested (body : List Instr) : Prop := nestsIn [] body = true

instance (body : List Instr) : Decidable (WellNested body) :=
  inferInstanceAs (Decidable (_ = _))

@[simp] theorem nestsIn_instr_cons (opened : List Bool) (action : Action) (rest : List Instr) :
    nestsIn opened (action.instr :: rest) = nestsIn opened rest := by
  cases action <;> rfl

/-- Written code touches none of the conditionals around it. -/
theorem nestsIn_flatten_append (c : Code) (opened : List Bool) (rest : List Instr) :
    nestsIn opened (c.flatten ++ rest) = nestsIn opened rest := by
  induction c generalizing opened rest with
  | done => rfl
  | act action more ih => simp [Code.flatten, ih]
  | ifThen first more ih₁ ih₂ => simp [Code.flatten, nestsIn, ih₁, ih₂]
  | ifElse first second more ih₁ ih₂ ih₃ => simp [Code.flatten, nestsIn, ih₁, ih₂, ih₃]

/-- A body starts with code, and then with what the innermost open conditional still needs. -/
def StartsWithCode : List Bool → List Instr → Prop
  | [], body => ∃ c : Code, body = c.flatten
  | second :: outer, body => ∃ (c : Code) (rest : List Instr),
      body = c.flatten ++ .closeIf :: rest ∧ nestsIn outer rest = true ∨
      second = false ∧ body = c.flatten ++ .openElse :: rest ∧ nestsIn (true :: outer) rest = true

theorem StartsWithCode.prepend {opened : List Bool} {body : List Instr} (c : Code)
    (h : StartsWithCode opened body) : StartsWithCode opened (c.flatten ++ body) := by
  cases opened with
  | nil =>
    obtain ⟨d, rfl⟩ := h
    exact ⟨c ++ d, by simp⟩
  | cons second outer =>
    obtain ⟨d, rest, ⟨rfl, hrest⟩ | ⟨rfl, rfl, hrest⟩⟩ := h
    · exact ⟨c ++ d, rest, .inl ⟨by simp, hrest⟩⟩
    · exact ⟨c ++ d, rest, .inr ⟨rfl, by simp, hrest⟩⟩

theorem startsWithCode_of_nestsIn (body : List Instr) (opened : List Bool)
    (h : nestsIn opened body = true) : StartsWithCode opened body := by
  -- a conditional is passed as a whole, so the rest is shorter but need not be the tail
  induction hn : body.length using Nat.strongRecOn generalizing body opened with
  | ind n ih =>
    subst hn
    have act (action : Action) (rest : List Instr) (hbody : body = action.instr :: rest) :
        StartsWithCode opened body := by
      subst hbody
      rw [nestsIn_instr_cons] at h
      exact (ih rest.length (by simp) rest opened h rfl).prepend (.act action .done)
    match body with
    | [] =>
      cases opened with
      | nil => exact ⟨.done, rfl⟩
      | cons second outer => simp [nestsIn] at h
    | .const value :: rest => exact act (.const value) rest rfl
    | .call name :: rest => exact act (.call name) rest rfl
    | .plain mnemonic operand :: rest => exact act (.plain mnemonic operand) rest rfl
    | .openElse :: rest =>
      match opened, h with
      | false :: outer, h => exact ⟨.done, rest, .inr ⟨rfl, rfl, h⟩⟩
    | .closeIf :: rest =>
      match opened, h with
      | _ :: outer, h => exact ⟨.done, rest, .inl ⟨rfl, h⟩⟩
    | .openIf :: rest =>
      rw [nestsIn] at h
      obtain ⟨first, rest', ⟨rfl, h'⟩ | ⟨-, rfl, h'⟩⟩ := ih rest.length (by simp) rest _ h rfl
      · have := (ih _ (by simp; omega) rest' opened h' rfl).prepend (.ifThen first .done)
        simpa [Code.flatten] using this
      · obtain ⟨second, rest'', ⟨rfl, h''⟩ | ⟨h'', -⟩⟩ := ih _ (by simp; omega) rest' _ h' rfl
        · have := (ih _ (by simp; omega) rest'' opened h'' rfl).prepend (.ifElse first second .done)
          simpa [Code.flatten] using this
        · exact absurd h'' (by decide)

/-- A body is well nested exactly when it writes some code. -/
theorem wellNested_iff_exists_code {body : List Instr} :
    WellNested body ↔ ∃ c : Code, c.flatten = body := by
  constructor
  · intro h
    obtain ⟨c, hc⟩ := startsWithCode_of_nestsIn body [] h
    exact ⟨c, hc.symm⟩
  · rintro ⟨c, rfl⟩
    have := nestsIn_flatten_append c [] []
    rwa [List.append_nil] at this

/-! ### Jumps -/

namespace Code

/-- The number of instructions that write some code. -/
def size (c : Code) : Nat := c.flatten.length

@[simp] theorem size_done : done.size = 0 := rfl

@[simp] theorem size_act (action : Action) (rest : Code) :
    (act action rest).size = rest.size + 1 := by
  simp [size, flatten]

@[simp] theorem size_ifThen (first rest : Code) :
    (ifThen first rest).size = first.size + rest.size + 2 := by
  simp [size, flatten]
  omega

@[simp] theorem size_ifElse (first second rest : Code) :
    (ifElse first second rest).size = first.size + second.size + rest.size + 3 := by
  simp [size, flatten]
  omega

/-- The jumps of code that starts at a place. -/
def jumps (place : Nat) : Code → JumpTable
  | done => []
  | act _ rest => rest.jumps (place + 1)
  | ifThen first rest =>
    let stop := place + 1 + first.size
    first.jumps (place + 1) ++ (place, stop) :: rest.jumps (stop + 1)
  | ifElse first second rest =>
    let middle := place + 1 + first.size
    let stop := middle + 1 + second.size
    first.jumps (place + 1) ++ second.jumps (middle + 1) ++
      (place, middle + 1) :: (middle, stop) :: rest.jumps (stop + 1)

/-- The markers of code all lie inside it. -/
theorem jumps_bounds {c : Code} {place : Nat} {jump : Nat × Nat} (h : jump ∈ c.jumps place) :
    place ≤ jump.1 ∧ jump.1 < place + c.size := by
  induction c generalizing place with
  | done => simp [jumps] at h
  | act action rest ih =>
    have := ih h
    simp only [size_act]
    omega
  | ifThen first rest ih₁ ih₂ =>
    simp only [jumps, List.mem_append, List.mem_cons] at h
    simp only [size_ifThen]
    rcases h with h | rfl | h
    · have := ih₁ h
      omega
    · dsimp only
      omega
    · have := ih₂ h
      omega
  | ifElse first second rest ih₁ ih₂ ih₃ =>
    simp only [jumps, List.mem_append, List.mem_cons] at h
    simp only [size_ifElse]
    rcases h with (h | h) | rfl | rfl | h
    · have := ih₁ h
      omega
    · have := ih₂ h
      omega
    · dsimp only
      omega
    · dsimp only
      omega
    · have := ih₃ h
      omega

/-- No two jumps of code start at the same place. -/
theorem pairwise_jumps (c : Code) (place : Nat) :
    (c.jumps place).Pairwise fun a b => a.1 ≠ b.1 := by
  -- The parts of a code lie behind one another, so their jumps start in disjoint ranges.
  induction c generalizing place with
  | done => exact .nil
  | act action rest ih => exact ih (place + 1)
  | ifThen first rest ih₁ ih₂ =>
    simp only [jumps, List.pairwise_append, List.pairwise_cons, List.mem_cons]
    refine ⟨ih₁ _, ⟨fun b hb => ?_, ih₂ _⟩, ?_⟩
    · have := jumps_bounds hb
      omega
    · rintro a ha b hb
      have := jumps_bounds ha
      obtain rfl | hb := hb
      · dsimp only
        omega
      · have := jumps_bounds hb
        omega
  | ifElse first second rest ih₁ ih₂ ih₃ =>
    simp only [jumps, List.pairwise_append, List.pairwise_cons, List.mem_append, List.mem_cons]
    refine ⟨⟨ih₁ _, ih₂ _, fun a ha b hb => ?_⟩, ⟨?_, fun b hb => ?_, ih₃ _⟩, ?_⟩
    · have := jumps_bounds ha
      have := jumps_bounds hb
      omega
    · rintro b (rfl | hb)
      · dsimp only
        omega
      · have := jumps_bounds hb
        omega
    · have := jumps_bounds hb
      omega
    · intro a ha b hb
      have ha' : place < a.1 ∧ a.1 ≠ place + 1 + first.size ∧
          a.1 < place + 1 + first.size + 1 + second.size := by
        rcases ha with ha | ha <;> have := jumps_bounds ha <;> omega
      obtain rfl | rfl | hb := hb
      · exact Nat.ne_of_gt ha'.1
      · exact ha'.2.1
      · have := jumps_bounds hb
        omega

/-- A jump of code is found in its table. -/
theorem lookup_jumps {c : Code} {place : Nat} {jump : Nat × Nat} (h : jump ∈ c.jumps place) :
    (c.jumps place).lookup jump.1 = some jump.2 := by
  obtain ⟨before, after, hsplit⟩ := List.append_of_mem h
  have hdistinct := c.pairwise_jumps place
  rw [hsplit, List.pairwise_append] at hdistinct
  refine List.lookup_eq_some_iff.mpr ⟨before, after, hsplit, fun other hother => ?_⟩
  exact bne_iff_ne.mpr (hdistinct.2.2 other hother jump List.mem_cons_self).symm

end Code

@[simp] theorem matchMarkers_instr_cons (index : Nat) (opened : List OpenMarker) (action : Action)
    (rest : List Instr) :
    matchMarkers index opened (action.instr :: rest) = matchMarkers (index + 1) opened rest := by
  cases action <;> rfl

theorem matchMarkers_openIf_cons (index : Nat) (opened : List OpenMarker) (rest : List Instr) :
    matchMarkers index opened (.openIf :: rest) =
      matchMarkers (index + 1) ({ start := index } :: opened) rest := rfl

theorem matchMarkers_openElse_cons (index start : Nat) (outer : List OpenMarker)
    (rest : List Instr) :
    matchMarkers index (⟨start, none⟩ :: outer) (.openElse :: rest) =
      matchMarkers (index + 1) (⟨start, some index⟩ :: outer) rest := rfl

theorem matchMarkers_closeIf_cons (index : Nat) (marker : OpenMarker) (outer : List OpenMarker)
    (rest : List Instr) :
    matchMarkers index (marker :: outer) (.closeIf :: rest) =
      (matchMarkers (index + 1) outer rest).map (marker.jumps index ++ ·) := by
  rw [matchMarkers]
  cases matchMarkers (index + 1) outer rest <;> rfl

/-- Matching the markers of code adds its jumps and leaves the conditionals around it open. -/
theorem matchMarkers_flatten_append (c : Code) (index : Nat) (opened : List OpenMarker)
    (rest : List Instr) :
    matchMarkers index opened (c.flatten ++ rest) =
      (matchMarkers (index + c.size) opened rest).map (c.jumps index ++ ·) := by
  -- A code closes every marker it opens, so the markers open around it are untouched.
  induction c generalizing index opened rest with
  | done =>
    simp only [Code.flatten, List.nil_append, Code.size_done, Nat.add_zero, Code.jumps]
    cases matchMarkers index opened rest <;> rfl
  | act action more ih =>
    simp only [Code.flatten, List.cons_append, matchMarkers_instr_cons, ih, Code.size_act,
      Code.jumps]
    rw [Nat.add_right_comm, Nat.add_assoc]
  | ifThen first more ih₁ ih₂ =>
    simp only [Code.flatten, List.cons_append, List.append_assoc,
      matchMarkers_openIf_cons, ih₁, matchMarkers_closeIf_cons, ih₂, Code.size_ifThen, Code.jumps]
    have hstop : index + 1 + first.size + 1 + more.size = index + (first.size + more.size + 2) := by
      omega
    rw [hstop]
    cases matchMarkers (index + (first.size + more.size + 2)) opened rest with
    | error e => rfl
    | ok others => simp [Except.map, OpenMarker.jumps]
  | ifElse first second more ih₁ ih₂ ih₃ =>
    simp only [Code.flatten, List.cons_append, List.append_assoc,
      matchMarkers_openIf_cons, ih₁, matchMarkers_openElse_cons, ih₂, matchMarkers_closeIf_cons, ih₃,
      Code.size_ifElse, Code.jumps]
    have hstop : index + 1 + first.size + 1 + second.size + 1 + more.size =
        index + (first.size + second.size + more.size + 3) := by
      omega
    rw [hstop]
    cases matchMarkers (index + (first.size + second.size + more.size + 3)) opened rest with
    | error e => rfl
    | ok others => simp [Except.map, OpenMarker.jumps]

/-- The jump table of a body that writes code is that of the code. -/
theorem jumpTable_flatten (c : Code) : jumpTable c.flatten = .ok (c.jumps 0) := by
  have h := matchMarkers_flatten_append c 0 [] []
  rw [List.append_nil] at h
  rw [jumpTable, h]
  simp [matchMarkers, Except.map]

end StackScript
