import Mathlib.Data.List.Chain
import Mathlib.Data.List.TakeWhile
import StackScript.Proofs.Evaluation

/-!
# The layout of data

The string literals of a compiled program lie side by side in memory, from address zero on, each
text once. So the segments of a module are determined by the texts, and they fit into its memory.

## Main definitions

* `layoutFrom`: segments side by side.
* `Module.LaidOut`: the data of a module are some texts side by side.
* `Memory.AgreesBelow`: two memories hold the same bytes before an address.

## Main results

* `Module.LaidOut.addData`: adding data keeps the layout.
* `Module.LaidOut.offset_eq`: the offset of a text is its address.
* `Memory.exists_placeAll`: texts that are placed side by side can be read back.
* `Module.LaidOut.exists_readable`: the data fit into the memory, where they can be read.
-/

namespace StackScript

/-- The number of bytes of some texts. -/
def totalLength (texts : List Bytes) : Nat :=
  (texts.map List.length).sum

@[simp] theorem totalLength_append (texts more : List Bytes) :
    totalLength (texts ++ more) = totalLength texts + totalLength more := by
  simp [totalLength]

/-- Texts as segments side by side from an offset on. -/
def layoutFrom (offset : Nat) : List Bytes → List Segment
  | [] => []
  | text :: rest => ⟨offset, text⟩ :: layoutFrom (offset + text.length) rest

theorem layoutFrom_append (offset : Nat) (texts more : List Bytes) :
    layoutFrom offset (texts ++ more) =
      layoutFrom offset texts ++ layoutFrom (offset + totalLength texts) more := by
  induction texts generalizing offset with
  | nil => simp [layoutFrom, totalLength]
  | cons text rest ih => simp [layoutFrom, ih, totalLength, Nat.add_assoc]

theorem totalLength_le_of_sublist {texts all : List Bytes} (h : texts.Sublist all) :
    totalLength texts ≤ totalLength all := by
  induction h with
  | slnil => exact Nat.le_refl _
  | cons text _ ih => exact Nat.le_add_left_of_le ih
  | cons_cons text _ ih => exact Nat.add_le_add_left ih _

/-- Induction along `List.eraseDups`: what equals the first element is dropped behind it. -/
theorem eraseDups_induction {α : Type} [BEq α] {motive : List α → Prop} (nil : motive [])
    (cons : ∀ first rest, motive (rest.filter fun x => !x == first) → motive (first :: rest))
    (list : List α) : motive list := by
  induction hlength : list.length using Nat.strongRecOn generalizing list with
  | ind n ih =>
    cases list with
    | nil => exact nil
    | cons first rest =>
      have hshort : (rest.filter fun x => !x == first).length < n := by
        rw [← hlength]
        exact Nat.lt_succ_of_le (List.length_filter_le _ _)
      exact cons first rest (ih _ hshort _ rfl)

theorem eraseDups_sublist (texts : List Bytes) : texts.eraseDups.Sublist texts := by
  induction texts using eraseDups_induction with
  | nil => exact .slnil
  | cons first rest ih =>
    rw [List.eraseDups_cons]
    exact (ih.trans List.filter_sublist).cons_cons first

theorem nodup_eraseDups {α : Type} [BEq α] [LawfulBEq α] (list : List α) :
    list.eraseDups.Nodup := by
  induction list using eraseDups_induction with
  | nil => exact List.nodup_nil
  | cons first rest ih =>
    rw [List.eraseDups_cons, List.nodup_cons]
    exact ⟨by simp, ih⟩

@[simp] theorem map_data_layoutFrom (offset : Nat) (texts : List Bytes) :
    (layoutFrom offset texts).map Segment.data = texts := by
  induction texts generalizing offset with
  | nil => rfl
  | cons text rest ih => rw [layoutFrom, List.map_cons, ih]

/-- Segments side by side lie between their ends. -/
theorem exists_offset_of_mem_layoutFrom {offset : Nat} {texts : List Bytes} {segment : Segment}
    (h : segment ∈ layoutFrom offset texts) :
    ∃ n : Nat, segment.offset = n ∧ offset ≤ n ∧
      n + segment.data.length ≤ offset + totalLength texts := by
  induction texts generalizing offset with
  | nil => cases h
  | cons text rest ih =>
    have hlength : totalLength (text :: rest) = text.length + totalLength rest := by
      simp [totalLength]
    rcases List.mem_cons.mp h with rfl | h
    · exact ⟨offset, rfl, Nat.le_refl _, by dsimp only; omega⟩
    · obtain ⟨n, hn, hge, hle⟩ := ih h
      exact ⟨n, hn, by omega, by omega⟩

theorem offset_of_mem_head?_layoutFrom {offset : Nat} {texts : List Bytes} {segment : Segment}
    (h : segment ∈ (layoutFrom offset texts).head?) : segment.offset = offset := by
  cases texts with
  | nil => cases h
  | cons text rest =>
    cases h
    rfl

/-- Each segment begins where the one before it ends. -/
theorem isChain_layoutFrom (offset : Nat) (texts : List Bytes) :
    (layoutFrom offset texts).IsChain fun (segment next : Segment) =>
      next.offset = segment.offset + segment.data.length := by
  induction texts generalizing offset with
  | nil => exact .nil
  | cons text rest ih =>
    refine (ih _).cons fun next hnext => ?_
    exact_mod_cast offset_of_mem_head?_layoutFrom hnext

/-- No segment begins before one that stands before it ends. -/
theorem pairwise_layoutFrom (offset : Nat) (texts : List Bytes) :
    (layoutFrom offset texts).Pairwise fun (segment later : Segment) =>
      segment.offset + segment.data.length ≤ later.offset := by
  induction texts generalizing offset with
  | nil => exact .nil
  | cons text rest ih =>
    refine .cons (fun later hlater => ?_) (ih _)
    obtain ⟨n, hn, hge, -⟩ := exists_offset_of_mem_layoutFrom hlater
    dsimp only
    omega

/-- A text is found at the number of bytes before it. -/
theorem find?_layoutFrom (offset : Nat) (texts : List Bytes) (text : Bytes) :
    (layoutFrom offset texts).find? (fun segment => segment.data == text) =
      if text ∈ texts then
        some ⟨(offset + totalLength (texts.takeWhile (· != text)) : Nat), text⟩
      else none := by
  induction texts generalizing offset with
  | nil => simp [layoutFrom]
  | cons first rest ih =>
    by_cases hfirst : first = text
    · simp [layoutFrom, hfirst, totalLength]
    · simp only [layoutFrom, List.find?_cons, beq_eq_false_iff_ne.mpr hfirst, ih]
      simp [hfirst, Ne.symm hfirst, totalLength, Nat.add_assoc]

namespace Module

/-- The data of a module are some texts side by side, each once. -/
def LaidOut (m : Module) (texts : List Bytes) : Prop :=
  m.data = layoutFrom 0 texts.eraseDups

namespace LaidOut

variable {m : Module} {texts : List Bytes}

theorem dataSize_eq (h : m.LaidOut texts) : m.dataSize = totalLength texts.eraseDups := by
  unfold dataSize
  rw [h]
  rcases List.eq_nil_or_concat texts.eraseDups with hnil | ⟨before, last, hconcat⟩
  · simp [hnil, layoutFrom, totalLength]
  · simp [hconcat, layoutFrom_append, layoutFrom, totalLength]

/-- Adding data keeps the layout. -/
theorem addData (h : m.LaidOut texts) (text : Bytes) :
    (m.addData text).2.LaidOut (texts ++ [text]) := by
  unfold LaidOut Module.addData
  rw [h, find?_layoutFrom, List.eraseDups_append]
  by_cases hmem : text ∈ texts
  · simp [hmem, List.removeAll, h.symm]
  · have hsingle : [text].eraseDups = [text] := rfl
    simp [hmem, List.removeAll, layoutFrom_append, hsingle, layoutFrom, h.dataSize_eq]

/-- The offset of a text is its address among the texts. -/
theorem offset_eq (h : m.LaidOut texts) {text : Bytes} {segment : Segment}
    (hfind : m.data.find? (fun segment => segment.data == text) = some segment) :
    segment.offset = addressAmong texts text := by
  rw [h, find?_layoutFrom] at hfind
  split at hfind
  · simp only [Option.some.injEq] at hfind
    simp [← hfind, addressAmong, totalLength]
  · simp at hfind

end LaidOut

/-- Where the offset of data that are added is found. -/
theorem find?_addData (m : Module) (text : Bytes) :
    (m.addData text).2.data.find? (fun segment => segment.data == text) =
      some ⟨(m.addData text).1, text⟩ := by
  unfold addData
  cases hfind : m.data.find? fun segment => segment.data == text with
  | some segment =>
    have hdata := List.find?_some hfind
    simp only [beq_iff_eq] at hdata
    subst hdata
    exact hfind
  | none => simp [hfind]

end Module

/-! ### Memory -/

namespace Memory

variable {memory memory' : Memory} {offset : Nat} {text : Bytes}

/-- A range within the memory is not cut off. -/
theorem interval_of_le {length : Nat} (hfit : offset + length ≤ memory.size) :
    memory.interval offset (offset + length : Int) = (offset, length) := by
  simp only [interval, clamp]
  rw [if_neg (by omega), if_neg (by omega), Prod.mk.injEq]
  omega

/-- The memory with a text at an offset. -/
def withText (memory : Memory) (offset : Nat) (text : Bytes) : Memory :=
  { memory with placements := ⟨offset, text.length, text.toArray⟩ :: memory.placements }

theorem place_of_le (hfit : offset + text.length ≤ memory.size) :
    memory.place ⟨offset, text⟩ = .ok (memory.withText offset text) := by
  simp only [place, List.size_toArray, interval_of_le hfit, decide_true, Bool.true_or, if_true]
  rfl

theorem byteAt_withText_of_lt {address : Nat} (h : address < offset) :
    (memory.withText offset text).byteAt address = memory.byteAt address := by
  simp [byteAt, withText, Placement.byteAt?, Nat.not_le.mpr h]

theorem byteAt_withText {i : Nat} (hi : i < text.length) :
    (memory.withText offset text).byteAt (offset + i) = text[i] := by
  have hbyte : (Placement.mk offset text.length text.toArray).byteAt? (offset + i) =
      some text[i] := by
    by_cases hsingle : text.length = 1
    · obtain rfl : i = 0 := by omega
      simp [Placement.byteAt?, hsingle]
    · simp [Placement.byteAt?, hsingle, hi]
  simp [byteAt, withText, hbyte]

/-- Two memories of one size hold the same bytes before an address. -/
structure AgreesBelow (memory : Memory) (bound : Nat) (memory' : Memory) : Prop where
  size_eq : memory'.size = memory.size
  byteAt_eq : ∀ address < bound, memory'.byteAt address = memory.byteAt address

theorem AgreesBelow.readBytes_eq {bound length : Nat} (h : memory.AgreesBelow bound memory')
    (hbound : offset + length ≤ bound) (hfit : offset + length ≤ memory.size) :
    memory'.readBytes offset length = memory.readBytes offset length := by
  have hfit' : offset + length ≤ memory'.size := h.size_eq ▸ hfit
  simp only [readBytes, h.size_eq, interval_of_le hfit, interval_of_le hfit']
  congr 2
  refine List.map_congr_left fun i hi => h.byteAt_eq _ ?_
  rw [List.mem_range] at hi
  omega

theorem readBytes_withText (hfit : offset + text.length ≤ memory.size) :
    (memory.withText offset text).readBytes offset text.length = .ok text := by
  have hfit' : offset + text.length ≤ (memory.withText offset text).size := hfit
  have hbounds : ¬ ((offset : Int) < 0 ∨
      (offset : Int) + text.length > (memory.withText offset text).size) := by
    omega
  simp only [readBytes, interval_of_le hfit', Bool.or_eq_true, decide_eq_true_eq, if_neg hbounds]
  congr 1
  refine List.ext_getElem (by simp) fun i hi hi' => ?_
  simp [byteAt_withText hi']

/-- Texts that fit into a memory can be placed in it side by side. Each can then be read back, and
what lies before them is left as it was. -/
theorem exists_placeAll (memory : Memory) (offset : Nat) (texts : List Bytes)
    (hfit : offset + totalLength texts ≤ memory.size) :
    ∃ memory' : Memory, memory.placeAll (layoutFrom offset texts) = .ok memory' ∧
      memory.AgreesBelow offset memory' ∧ ∀ segment ∈ layoutFrom offset texts,
        memory'.readBytes segment.offset segment.data.length = .ok segment.data := by
  induction texts generalizing memory offset with
  | nil => exact ⟨memory, rfl, ⟨rfl, fun _ _ => rfl⟩, by simp [layoutFrom]⟩
  | cons text rest ih =>
    have hlength : totalLength (text :: rest) = text.length + totalLength rest := by
      simp [totalLength]
    have htext : offset + text.length ≤ memory.size := by omega
    obtain ⟨memory', hplaced, hagrees, hrest⟩ := ih (memory.withText offset text)
      (offset + text.length) (by rw [hlength, ← Nat.add_assoc] at hfit; exact hfit)
    refine ⟨memory', ?_, ⟨hagrees.size_eq, fun address haddress => ?_⟩, ?_⟩
    · rw [layoutFrom, placeAll, place_of_le htext]
      exact hplaced
    · rw [hagrees.byteAt_eq address (by omega), byteAt_withText_of_lt haddress]
    · -- the texts behind the first one do not cover it
      refine List.forall_mem_cons.mpr ⟨?_, hrest⟩
      exact (hagrees.readBytes_eq (Nat.le_refl _) htext).trans (readBytes_withText htext)

end Memory

namespace Module.LaidOut

variable {m : Module} {texts : List Bytes}

theorem totalLength_le (h : m.LaidOut texts) :
    totalLength texts.eraseDups ≤ m.memoryPages.toNat * pageSize := by
  simp only [memoryPages, h.dataSize_eq, pageSize]
  omega

/-- The data of a module can be read in its memory. -/
theorem exists_readable (h : m.LaidOut texts) :
    ∃ memory, m.initialMemory = .ok memory ∧ ∀ inst : Instance, inst.memory = memory →
      ∀ segment ∈ m.data,
        inst.readBytes segment.offset segment.data.length = .ok segment.data := by
  unfold initialMemory
  split
  · obtain ⟨memory, hplaced, -, hread⟩ := Memory.exists_placeAll
      { size := m.memoryPages.toNat * pageSize } 0 texts.eraseDups
      (by rw [Nat.zero_add]; exact h.totalLength_le)
    rw [h]
    refine ⟨some memory, by simp [hplaced], fun inst hinst segment hsegment => ?_⟩
    rw [Instance.readBytes, hinst]
    exact hread segment hsegment
  · rename_i hmemory
    have hdata : m.data = [] := by
      simp only [hasMemory, Bool.or_eq_true, not_or] at hmemory
      simpa using hmemory.2
    exact ⟨none, rfl, by simp [hdata]⟩

/-- The data of a module fit into its memory. -/
theorem exists_initialMemory (h : m.LaidOut texts) : ∃ memory, m.initialMemory = .ok memory := by
  obtain ⟨memory, hmemory, -⟩ := h.exists_readable
  exact ⟨memory, hmemory⟩

end Module.LaidOut

end StackScript
