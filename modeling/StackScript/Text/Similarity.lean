/-!
# How alike two texts are

Two texts are compared by the runs of characters they share. The longest run that both hold is taken
first; then, in the same way, what stands before it in both and what stands after it in both. Twice
the number of characters in these runs, over the number of characters in both texts, is their
similarity: a ratio between zero and one, which is one for equal texts.

## Main definitions

* `SharedRun`, `longestRun`: a run that two texts share, and the longest of them.
* `sharedCount`: the number of characters in the runs that two texts share.
* `Similarity`, `similarity`: a ratio, and the similarity of two texts.
* `closest`: the texts that are most alike to a given one.

## Main results

* `longestRun_fits`: a shared run lies in the first text.
-/

namespace StackScript

/-- A run of characters that two texts share: where it starts in each of them, and its length. -/
structure SharedRun where
  first : Nat
  second : Nat
  length : Nat
  deriving DecidableEq, Repr

namespace SharedRun

/-- The longer of two runs, and the first of two equally long ones. -/
def longer (r s : SharedRun) : SharedRun :=
  if r.length < s.length then s else r

/-- Whether a run ends in a first text of so many characters. -/
def Fits (r : SharedRun) (size : Nat) : Prop :=
  r.first + r.length ≤ size

theorem Fits.longer {r s : SharedRun} {size : Nat} (hr : r.Fits size) (hs : s.Fits size) :
    (r.longer s).Fits size := by
  unfold SharedRun.longer
  split
  · exact hs
  · exact hr

end SharedRun

/-- The number of characters that two texts share at their beginning. -/
def commonLength : List Char → List Char → Nat
  | a :: as, b :: bs => if a = b then commonLength as bs + 1 else 0
  | _, _ => 0

theorem commonLength_le (a b : List Char) : commonLength a b ≤ a.length := by
  fun_induction commonLength a b with
  | case1 as b bs ih => simpa using ih
  | case2 => simp
  | case3 => simp

/-- The longest of `best` and the runs that start at `a`, which is at the place `i` of the first
text, and at some place of `b`, which is at the place `j` of the second. -/
def longestAt (i : Nat) (a : List Char) (best : SharedRun) (j : Nat) : List Char → SharedRun
  | [] => best
  | b :: bs => longestAt i a (best.longer ⟨i, j, commonLength a (b :: bs)⟩) (j + 1) bs

/-- The longest of `best` and the runs that start at some place of `a`, which is at the place `i` of
the first text, and at some place of `b`. -/
def longestFrom (b : List Char) (best : SharedRun) (i : Nat) : List Char → SharedRun
  | [] => best
  | a :: as => longestFrom b (longestAt i (a :: as) best 0 b) (i + 1) as

/-- The longest run that two texts share. Of equally long ones it is the first in the first text,
and among those the first in the second. -/
def longestRun (a b : List Char) : SharedRun :=
  longestFrom b ⟨0, 0, 0⟩ 0 a

theorem longestAt_fits {i size : Nat} {a : List Char} (ha : i + a.length ≤ size) :
    ∀ (b : List Char) (best : SharedRun) (j : Nat), best.Fits size →
      (longestAt i a best j b).Fits size
  | [], _, _, hbest => hbest
  | b :: bs, best, j, hbest => by
    have hrun : SharedRun.Fits ⟨i, j, commonLength a (b :: bs)⟩ size := by
      have := commonLength_le a (b :: bs)
      unfold SharedRun.Fits
      simp only
      omega
    exact longestAt_fits ha bs _ _ (hbest.longer hrun)

theorem longestFrom_fits {b : List Char} {size : Nat} :
    ∀ (a : List Char) (best : SharedRun) (i : Nat), i + a.length ≤ size → best.Fits size →
      (longestFrom b best i a).Fits size
  | [], _, _, _, hbest => hbest
  | a :: as, best, i, ha, hbest => by
    have hrest : i + 1 + as.length ≤ size := by
      rw [List.length_cons] at ha
      omega
    exact longestFrom_fits as _ _ hrest (longestAt_fits ha b best 0 hbest)

/-- A shared run lies in the first text. -/
theorem longestRun_fits (a b : List Char) : (longestRun a b).Fits a.length :=
  longestFrom_fits a _ 0 (by omega) (Nat.zero_le _)

/-- The number of characters in the runs that two texts share. -/
def sharedCount (a b : List Char) : Nat :=
  match h : longestRun a b with
  | ⟨first, second, length⟩ =>
    if length = 0 then 0
    else
      have : first + length ≤ a.length := by
        have hfits := longestRun_fits a b
        rw [h] at hfits
        exact hfits
      let before := sharedCount (a.take first) (b.take second)
      let after := sharedCount (a.drop (first + length)) (b.drop (second + length))
      before + length + after
termination_by a.length
decreasing_by
  · rw [List.length_take]
    omega
  · rw [List.length_drop]
    omega

/-- The ratio `part / whole`. -/
structure Similarity where
  part : Nat
  whole : Nat
  deriving DecidableEq, Repr

/-- Whether a ratio is at most another. -/
def Similarity.atMost (s t : Similarity) : Bool :=
  s.part * t.whole ≤ t.part * s.whole

/-- The similarity of two texts. Two empty texts are equal. -/
def similarity (a b : List Char) : Similarity :=
  if a.isEmpty && b.isEmpty then ⟨1, 1⟩ else ⟨2 * sharedCount a b, a.length + b.length⟩

/-- Whether a text stands before another in order of code points, or is the same. -/
def standsBefore : List Char → List Char → Bool
  | [], _ => true
  | _ :: _, [] => false
  | a :: as, b :: bs => a.toNat < b.toNat || (a == b && standsBefore as bs)

/-- Whether a text with its similarity ranks before another: it is more alike, or as alike and not
earlier in order. -/
def ranksBefore (x y : Similarity × String) : Bool :=
  if x.1.atMost y.1 then y.1.atMost x.1 && standsBefore y.2.toList x.2.toList else true

/-- The texts whose similarity to `word` is at least `least`, and of these at most `count`, the most
alike ones, in order. -/
def closest (least : Similarity) (count : Nat) (word : String) (texts : List String) :
    List String :=
  let ranked := texts.map fun text => (similarity text.toList word.toList, text)
  let alike := ranked.filter fun entry => least.atMost entry.1
  let best := (alike.mergeSort ranksBefore).take count
  (best.map Prod.snd).mergeSort fun s t => standsBefore s.toList t.toList

end StackScript
