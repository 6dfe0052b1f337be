import Xv6Net.Fs.BioInv

/-! Processes that each `bread` a different block no buffer holds. `bget` gives each a buffer with
one reference, which it keeps while it waits for the buffer's sleep-lock and then for the disk. With
`NBUF` such readers every buffer is referenced, and the next reader's `bget` reaches its second
loop, finds no buffer to recycle and panics. Nothing in `bio.c` bounds the readers by `NBUF`:
`NPROC` processes may read at once. -/

namespace Xv6Net.Fs.BioReaders

open Xv6Net.Lib.Links Xv6Net.Fs.Layout Xv6Net.Fs.Bio Xv6Net.Fs.BioInv

/-- After `k` readers: the buffers of `S`, `k` of them, hold one of the blocks `1..k` of drive 0
with a reference each; the others are as `binit` left them; processes `k` and above have not
called. -/
structure Readers (k : ℕ) (S : Finset (Fin NBUF)) (st : State) : Prop where
  card : S.card = k
  used : ∀ b ∈ S, 0 < (st.bufs b).refcnt ∧ 1 ≤ (st.bufs b).blockno ∧ (st.bufs b).blockno ≤ k
  free : ∀ b ∉ S, (st.bufs b).refcnt = 0 ∧ (st.bufs b).dirty = false ∧ (st.bufs b).blockno = 0
  idle : ∀ p : Fin NPROC, k ≤ p.val → st.calls p = none

variable {k : ℕ} {S : Finset (Fin NBUF)} {st : State} {l : List (Fin NBUF)}

lemma readers_binit (d : ℕ → ℕ → Block) : Readers 0 ∅ (binit d) where
  card := rfl
  used b hb := absurd hb (Finset.notMem_empty b)
  free b _ := ⟨rfl, rfl, rfl⟩
  idle p _ := rfl

lemma Readers.scanNext (h : Readers k S st) (hl : st.links.Ring l) (hall : ∀ b, b ∈ l) :
    st.links.scanNext (fun b => hasBlock 0 (k + 1) (st.bufs b)) NBUF (st.links.next none) = none := by
  rw [hl.scanNext _ (length_le_of_nodup hl.1), List.find?_eq_none]
  intro b _
  have hbn : (st.bufs b).blockno ≠ k + 1 := by
    by_cases hb : b ∈ S
    · have := (h.used b hb).2.2
      omega
    · rw [(h.free b hb).2.2]
      omega
  simp [hasBlock, hbn]

lemma Readers.recycle (h : Readers k S st) (hk : k < NBUF) (hl : st.links.Ring l) (hall : ∀ b, b ∈ l) :
    ∃ b ∉ S, st.links.scanPrev (fun b => recyclable (st.bufs b)) NBUF (st.links.prev none) = some b := by
  have hfree : ∃ b, b ∉ S := by
    by_contra hno
    push_neg at hno
    have hS : S = Finset.univ := Finset.eq_univ_iff_forall.mpr hno
    have := h.card
    rw [hS, Finset.card_univ, Fintype.card_fin] at this
    omega
  obtain ⟨c, hc⟩ := hfree
  have hrc : recyclable (st.bufs c) = true := by simp [recyclable, (h.free c hc).1, (h.free c hc).2.1]
  rw [hl.scanPrev _ (length_le_of_nodup hl.1)]
  obtain ⟨b, hb⟩ := Option.isSome_iff_exists.mp
    ((List.find?_isSome (p := fun b => recyclable (st.bufs b))).mpr ⟨c, List.mem_reverse.mpr (hall c), hrc⟩)
  have hrb : recyclable (st.bufs b) = true := List.find?_some (p := fun b => recyclable (st.bufs b)) hb
  refine ⟨b, fun hbS => ?_, hb⟩
  have := (h.used b hbS).1
  simp [recyclable] at hrb
  omega

lemma Readers.full (h : Readers NBUF S st) (b : Fin NBUF) : 0 < (st.bufs b).refcnt := by
  have hS : S = Finset.univ := Finset.eq_of_subset_of_card_le (Finset.subset_univ S)
    (by rw [h.card, Finset.card_univ, Fintype.card_fin])
  exact (h.used b (hS ▸ Finset.mem_univ b)).1

lemma Readers.scanPrev_full (h : Readers NBUF S st) (hl : st.links.Ring l) :
    st.links.scanPrev (fun b => recyclable (st.bufs b)) NBUF (st.links.prev none) = none := by
  rw [hl.scanPrev _ (length_le_of_nodup hl.1), List.find?_eq_none]
  intro b _
  have := h.full b
  simp [recyclable]
  omega

lemma Readers.take {b : Fin NBUF} (h : Readers k S st) (hb : b ∉ S) (p : Fin NPROC) (hp : p.val = k) :
    Readers (k + 1) (insert b S) ((st.setBuf b
      { st.bufs b with dev := 0, blockno := k + 1, valid := false, dirty := false, refcnt := 1 }).setCall p
      (some (.acquire b))) where
  card := by rw [Finset.card_insert_of_notMem hb, h.card]
  used c hc := by
    rcases Finset.mem_insert.mp hc with rfl | hc
    · simp
    · have hcb : c ≠ b := fun e => hb (e ▸ hc)
      have := h.used c hc
      simp only [State.setCall_bufs, State.setBuf_bufs, Function.update_of_ne hcb]
      omega
  free c hc := by
    have hcb : c ≠ b := fun e => hc (e ▸ Finset.mem_insert_self b S)
    simpa [Function.update_of_ne hcb] using h.free c fun h' => hc (Finset.mem_insert_of_mem h')
  idle q hq := by
    have hqp : q ≠ p := fun e => by rw [e, hp] at hq; omega
    simpa [Function.update_of_ne hqp] using h.idle q (by omega)

variable {havedisk1 : Bool} {d : ℕ → ℕ → Block}

lemma Readers.bread {obs : List Obs} (hr : Run havedisk1 (binit d) st obs) (h : Readers k S st) (hk : k < NBUF) :
    ∃ st' obs' S', Run havedisk1 (binit d) st' obs' ∧ Readers (k + 1) S' st' := by
  have hg : Good d st obs := good_of_run hr
  obtain ⟨l, hl, hall, -⟩ := hg.ring
  obtain ⟨b, hb, hp⟩ := h.recycle hk hl hall
  have hkp : k < NPROC := lt_trans hk (by decide)
  have hs : step havedisk1 st (.bread ⟨k, hkp⟩ 0 (k + 1)) = _ :=
    step_bread_of_ok (h.idle ⟨k, hkp⟩ le_rfl) (bget_of_recycle (h.scanNext hl hall) hp)
  exact ⟨_, _, _, hr.step hs, h.take hb ⟨k, hkp⟩ rfl⟩

lemma readers_run (k : ℕ) (hk : k ≤ NBUF) :
    ∃ st obs S, Run havedisk1 (binit d) st obs ∧ Readers k S st := by
  induction k with
  | zero => exact ⟨_, _, _, .init, readers_binit d⟩
  | succ k ih =>
    obtain ⟨st, obs, S, hr, h⟩ := ih (by omega)
    exact h.bread hr (by omega)

/-- `NBUF` processes hold a buffer each while they wait; process `NBUF` then reads block
`NBUF + 1`, and `bget` finds no buffer free to recycle. -/
theorem bget_runs_dry (havedisk1 : Bool) (d : ℕ → ℕ → Block) :
    ∃ st obs, Run havedisk1 (binit d) st obs ∧ (∀ b, (st.bufs b).refcnt ≠ 0) ∧
      step havedisk1 st (.bread ⟨NBUF, by decide⟩ 0 (NBUF + 1)) = .panic "bget: no buffers" := by
  obtain ⟨st, obs, S, hr, h⟩ : ∃ st obs S, Run havedisk1 (binit d) st obs ∧ Readers NBUF S st :=
    readers_run NBUF le_rfl
  have hg : Good d st obs := good_of_run hr
  obtain ⟨l, hl, hall, -⟩ := hg.ring
  refine ⟨st, obs, hr, fun b => (h.full b).ne', ?_⟩
  exact step_bread_of_error (h.idle _ le_rfl) (bget_of_full (h.scanNext hl hall) (h.scanPrev_full hl))

end Xv6Net.Fs.BioReaders
