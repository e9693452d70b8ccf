import Mathlib
/-!
# Legible writing

Pieces that are written one behind the other can be told apart again if each piece shows where it
ends. `Legible P k f` says this of the pieces that `f` writes: from a list that begins with a piece
one can tell what was written, as far as `k` goes, and what comes behind. Often the end only shows
in what comes behind, and then `P` says what that has to look like.

Legible writing can be put together: in pairs (`pair`), and in lists of any length (`flatMap`), as
long as what comes behind a list does not look like one more piece.
-/
namespace PackageConf

variable {α α' β κ κ' : Type}

/-- What `f` writes of some `a` in front of a list tells `k a`, and where the list begins, if the
list satisfies `P`. -/
def Legible (P : List β → Prop) (k : α → κ) (f : α → List β) : Prop :=
  ∀ ⦃a b : α⦄ ⦃r s : List β⦄, P r → P s → f a ++ r = f b ++ s → k a = k b ∧ r = s

def Anything (_ : List β) : Prop := True

namespace Legible

variable {P Q : List β → Prop} {k : α → κ} {f : α → List β}

theorem injective (h : Legible P k f) (hnil : P []) {a b : α} (hab : f a = f b) : k a = k b :=
  (h hnil hnil (congrArg (· ++ []) hab)).1

/-- What is known can be told from what is written. -/
theorem of_key {l : α → κ'} (h : Legible P k f) (hkl : ∀ a b, k a = k b → l a = l b) :
    Legible P l f :=
  fun a b _ _ hr hs hrs => ⟨hkl a b (h hr hs hrs).1, (h hr hs hrs).2⟩

theorem append_left (h : Legible P k f) (l : List β) : Legible P k fun a => l ++ f a := by
  intro a b r s hr hs hrs
  rw [List.append_assoc, List.append_assoc] at hrs
  exact h hr hs (List.append_cancel_left hrs)

/-- The same list behind every piece, which shows where the piece ends. -/
theorem append_right (h : Legible P k f) {l : List β} (hl : ∀ r, P (l ++ r)) :
    Legible Q k fun a => f a ++ l := by
  intro a b r s _ _ hrs
  rw [List.append_assoc, List.append_assoc] at hrs
  obtain ⟨hk, hls⟩ := h (hl r) (hl s) hrs
  exact ⟨hk, List.append_cancel_left hls⟩

theorem pair {l : α' → κ'} {g : α' → List β} (hf : Legible P k f) (hg : Legible Q l g)
    (hP : ∀ b r, Q r → P (g b ++ r)) :
    Legible Q (fun p : α × α' => (k p.1, l p.2)) fun p => f p.1 ++ g p.2 := by
  rintro ⟨a, b⟩ ⟨a', b'⟩ r s hr hs hrs
  simp only [List.append_assoc] at hrs
  obtain ⟨hk, hg'⟩ := hf (hP b r hr) (hP b' s hs) hrs
  obtain ⟨hl, hrs'⟩ := hg hr hs hg'
  exact ⟨Prod.ext hk hl, hrs'⟩

/-- **Any number of pieces**, if what comes behind the last one is not the beginning of another. -/
theorem flatMap (hf : Legible P k f) (hgo : ∀ a t, P (f a ++ t))
    (hend : ∀ r, Q r → P r) (hstop : ∀ r, Q r → ∀ a t, f a ++ t ≠ r) :
    Legible Q (List.map k) (List.flatMap f) := by
  have hnext (xs : List α) (r : List β) (hr : Q r) : P (xs.flatMap f ++ r) := by
    cases xs with
    | nil => exact hend r hr
    | cons x xs =>
      rw [List.flatMap_cons, List.append_assoc]
      exact hgo x _
  intro xs ys r s hr hs hrs
  induction xs generalizing ys with
  | nil =>
    cases ys with
    | nil => exact ⟨rfl, hrs⟩
    | cons y ys =>
      rw [List.flatMap_cons, List.append_assoc] at hrs
      exact absurd hrs.symm (hstop r hr y _)
  | cons x xs ih =>
    cases ys with
    | nil =>
      rw [List.flatMap_cons, List.append_assoc] at hrs
      exact absurd hrs (hstop s hs x _)
    | cons y ys =>
      simp only [List.flatMap_cons, List.append_assoc] at hrs
      obtain ⟨hk, hrest⟩ := hf (hnext xs r hr) (hnext ys s hs) hrs
      obtain ⟨hks, hrs'⟩ := ih hrest
      exact ⟨by rw [List.map_cons, List.map_cons, hk, hks], hrs'⟩

end Legible

end PackageConf
