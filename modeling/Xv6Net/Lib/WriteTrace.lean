import Mathlib

/-! Sequences of single-cell writes to a store, applied in order; a crash keeps a prefix of them. -/

namespace Xv6Net.Lib.WriteTrace

variable {α β : Type} [DecidableEq α]

def apply (d : α → β) (ws : List (α × β)) : α → β :=
  ws.foldl (fun d w => Function.update d w.1 w.2) d

@[simp] lemma apply_nil (d : α → β) : apply d [] = d := rfl

lemma apply_cons (d : α → β) (w : α × β) (ws : List (α × β)) :
    apply d (w :: ws) = apply (Function.update d w.1 w.2) ws := rfl

lemma apply_append (d : α → β) (ws ws' : List (α × β)) : apply d (ws ++ ws') = apply (apply d ws) ws' := by
  simp [apply, List.foldl_append]

lemma apply_singleton (d : α → β) (a : α) (b : β) : apply d [(a, b)] = Function.update d a b := rfl

lemma apply_of_not_mem (d : α → β) {ws : List (α × β)} {a : α} (h : ∀ w ∈ ws, w.1 ≠ a) : apply d ws a = d a := by
  induction ws generalizing d with
  | nil => rfl
  | cons w ws ih =>
    rw [apply_cons, ih _ (fun w' hw' => h w' (List.mem_cons_of_mem w hw')),
      Function.update_of_ne (h w List.mem_cons_self).symm]

lemma apply_take_of_not_mem (d : α → β) {ws : List (α × β)} {a : α} (h : ∀ w ∈ ws, w.1 ≠ a) (k : ℕ) :
    apply d (ws.take k) a = d a :=
  apply_of_not_mem d fun w hw => h w (List.mem_of_mem_take hw)

lemma apply_congr_of_mem (d d' : α → β) {ws : List (α × β)} {a : α} (h : a ∈ ws.map Prod.fst) :
    apply d ws a = apply d' ws a := by
  induction ws generalizing d d' with
  | nil => simp at h
  | cons w ws ih =>
    rw [apply_cons, apply_cons]
    by_cases ha : a ∈ ws.map Prod.fst
    · exact ih _ _ ha
    · have hw : a = w.1 := by simp_all
      have hn : ∀ w' ∈ ws, w'.1 ≠ a := fun w' hw' he => ha (List.mem_map.mpr ⟨w', hw', he⟩)
      rw [apply_of_not_mem _ hn, apply_of_not_mem _ hn, hw, Function.update_self, Function.update_self]

lemma apply_append_of_covered (d : α → β) {ws ws' : List (α × β)} (h : ∀ w ∈ ws, w.1 ∈ ws'.map Prod.fst) :
    apply d (ws ++ ws') = apply d ws' := by
  funext a
  rw [apply_append]
  by_cases ha : a ∈ ws'.map Prod.fst
  · exact apply_congr_of_mem _ _ ha
  · have hn : ∀ w ∈ ws', w.1 ≠ a := fun w hw he => ha (List.mem_map.mpr ⟨w, hw, he⟩)
    have hn' : ∀ w ∈ ws, w.1 ≠ a := fun w hw he => ha (he ▸ h w hw)
    rw [apply_of_not_mem _ hn, apply_of_not_mem _ hn, apply_of_not_mem _ hn']

lemma apply_map_mem {γ : Type} (d : α → β) (f : γ → α) (g : γ → β) (l : List γ) (x : γ) (hx : x ∈ l)
    (hg : ∀ y ∈ l, f y = f x → g y = g x) : apply d (l.map fun y => (f y, g y)) (f x) = g x := by
  induction l generalizing d x with
  | nil => simp at hx
  | cons y l ih =>
    rw [List.map_cons, apply_cons]
    by_cases hf : f x ∈ l.map f
    · obtain ⟨z, hz, hzx⟩ := List.mem_map.mp hf
      have hgz : g z = g x := hg z (List.mem_cons_of_mem y hz) hzx
      rw [← hzx, ih _ z hz (fun w hw hwz => (hg w (List.mem_cons_of_mem y hw) (hwz.trans hzx)).trans hgz.symm),
        hgz]
    · have hxy : f y = f x := by
        rcases List.mem_cons.mp hx with rfl | hxl
        · rfl
        · exact absurd (List.mem_map_of_mem hxl) hf
      have hn : ∀ w ∈ l.map (fun y => (f y, g y)), w.1 ≠ f x := by
        intro w hw he
        obtain ⟨z, hz, rfl⟩ := List.mem_map.mp hw
        exact hf (List.mem_map.mpr ⟨z, hz, he⟩)
      rw [apply_of_not_mem _ hn, hxy, Function.update_self, hg y List.mem_cons_self hxy]

lemma sum_update_add {ι γ : Type} [Fintype ι] [DecidableEq ι] (f : γ → ℕ) (g : ι → γ) (p : ι) (v : γ) :
    ∑ q, f (Function.update g p v q) + f (g p) = ∑ q, f (g q) + f v := by
  have h₁ := Finset.add_sum_erase Finset.univ (fun q => f (Function.update g p v q)) (Finset.mem_univ p)
  have h₂ := Finset.add_sum_erase Finset.univ (fun q => f (g q)) (Finset.mem_univ p)
  have h₃ : ∑ q ∈ Finset.univ.erase p, f (Function.update g p v q) = ∑ q ∈ Finset.univ.erase p, f (g q) :=
    Finset.sum_congr rfl fun q hq => by rw [Function.update_of_ne (Finset.ne_of_mem_erase hq)]
  simp only [Function.update_self] at h₁
  omega

end Xv6Net.Lib.WriteTrace
