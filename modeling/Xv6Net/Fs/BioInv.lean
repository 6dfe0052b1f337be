import Xv6Net.Fs.Bio
import Xv6Net.Lib.WriteTrace

/-! What holds of the buffer cache and the disk queue in every reachable state. The list through
`bcache.head` holds every buffer once; in its order, a buffer with the block of an earlier one is
dead, so two live buffers never hold one block; `refcnt` counts the processes waiting for the
buffer and the one holding it; `idequeue` is a chain of the requests still pending, in the order
they came, and the controller runs the first. When every read finds the controller without error
and names drive 0 or 1, a valid buffer holds, and a block with no dirty buffer on disk holds, what
was last written to the block, so `bread` returns that. -/

namespace Xv6Net.Fs.BioInv

open Xv6Net.Lib.Links Xv6Net.Lib.WriteTrace Xv6Net.Fs.Layout Xv6Net.Fs.Bio

def label (x : Buf) : ℕ × ℕ := (x.dev, x.blockno)

/-- A buffer no one refers to and that holds nothing. -/
def Dead (x : Buf) : Prop := x.refcnt = 0 ∧ x.valid = false ∧ x.dirty = false

/-- Along the list, a buffer with the block of an earlier one is dead. -/
def LabelsOk (bufs : Fin NBUF → Buf) (l : List (Fin NBUF)) : Prop :=
  l.Pairwise fun a c => label (bufs a) = label (bufs c) → Dead (bufs c)

def acquiring (c : Option Call) (b : Fin NBUF) : ℕ := if c = some (.acquire b) then 1 else 0

/-- The processes in `bget`'s `acquiresleep` for `b`. -/
def acquirers (calls : Fin NPROC → Option Call) (b : Fin NBUF) : ℕ := ∑ p, acquiring (calls p) b

def holds (x : Buf) : ℕ := if x.lock = none then 0 else 1

/-- Asleep in `iderw` on `b`. -/
def InIderw (c : Option Call) (b : Fin NBUF) : Prop := c = some (.read b) ∨ c = some (.write b)

def Obs.queued? : Obs → Option (Fin NBUF)
  | .get .. | .read .. | .wrote .. | .done .. => none
  | .queued b => some b

def Obs.done? : Obs → Option (Fin NBUF)
  | .get .. | .read .. | .wrote .. | .queued .. => none
  | .done b _ => some b

def Obs.wrote? : Obs → Option ((ℕ × ℕ) × Block)
  | .get .. | .read .. | .queued .. | .done .. => none
  | .wrote dev blockno d => some ((dev, blockno), d)

/-- The requests in the order they joined `idequeue`, and in the order `ideintr` finished them. -/
def queuedBufs (obs : List Obs) : List (Fin NBUF) := obs.filterMap Obs.queued?

def doneBufs (obs : List Obs) : List (Fin NBUF) := obs.filterMap Obs.done?

/-- What was last written to each block of each device in `obs`, or what the disk held. -/
def latest (d₀ : ℕ → ℕ → Block) (obs : List Obs) : ℕ × ℕ → Block :=
  apply (fun L => d₀ L.1 L.2) (obs.filterMap Obs.wrote?)

/-- Every `bread` named drive 0 or 1, and no read found the controller in error. -/
def NoFault (obs : List Obs) : Prop :=
  (∀ p dev blockno, Obs.get p dev blockno ∈ obs → dev < 2) ∧ ∀ b, Obs.done b true ∉ obs

/-- Every `bread` returned what was last written to its block before it returned. -/
def ReadsLatest (d₀ : ℕ → ℕ → Block) (obs : List Obs) : Prop :=
  ∀ pre p dev blockno d post, obs = pre ++ Obs.read p dev blockno d :: post → d = latest d₀ pre (dev, blockno)

/-! ### The order of the list and the blocks of the buffers -/

section Labels

variable {bufs : Fin NBUF → Buf} {l : List (Fin NBUF)}

lemma LabelsOk.update {l₁ l₂ : List (Fin NBUF)} {b : Fin NBUF} {x : Buf} (h : LabelsOk bufs (l₁ ++ b :: l₂))
    (hnd : (l₁ ++ b :: l₂).Nodup) (hpre : ∀ a ∈ l₁, label (bufs a) = label x → Dead x)
    (hpost : ∀ c ∈ l₂, label x = label (bufs c) → Dead (bufs c)) :
    LabelsOk (Function.update bufs b x) (l₁ ++ b :: l₂) := by
  have hb₁ : b ∉ l₁ := fun e => (List.nodup_append.mp hnd).2.2 b e b List.mem_cons_self rfl
  have hb₂ : b ∉ l₂ := (List.nodup_cons.mp (List.nodup_append.mp hnd).2.1).1
  have hne : ∀ a ∈ l₁ ++ l₂, Function.update bufs b x a = bufs a := fun a ha =>
    Function.update_of_ne (fun e => by subst e; simp_all) _ _
  obtain ⟨h₁, h₂, h₁₂⟩ := List.pairwise_append.mp h
  obtain ⟨hb, h₂'⟩ := List.pairwise_cons.mp h₂
  refine List.pairwise_append.mpr ⟨?_, List.pairwise_cons.mpr ⟨?_, ?_⟩, ?_⟩
  · refine h₁.imp_of_mem fun {a c} ha hc hac => ?_
    rwa [hne a (by simp [ha]), hne c (by simp [hc])]
  · intro c hc
    rw [Function.update_self, hne c (by simp [hc])]
    exact hpost c hc
  · refine h₂'.imp_of_mem fun {a c} ha hc hac => ?_
    rwa [hne a (by simp [ha]), hne c (by simp [hc])]
  · intro a ha c hc
    rw [hne a (by simp [ha])]
    rcases List.mem_cons.mp hc with rfl | hc
    · rw [Function.update_self]
      exact hpre a ha
    · rw [hne c (by simp [hc])]
      exact h₁₂ a ha c (List.mem_cons_of_mem _ hc)

lemma LabelsOk.update_same {b : Fin NBUF} {x : Buf} (h : LabelsOk bufs l) (hnd : l.Nodup) (hb : b ∈ l)
    (hl : label x = label (bufs b)) (hd : Dead (bufs b) → Dead x) : LabelsOk (Function.update bufs b x) l := by
  obtain ⟨l₁, l₂, rfl⟩ := List.append_of_mem hb
  obtain ⟨-, h₂, h₁₂⟩ := List.pairwise_append.mp h
  refine h.update hnd (fun a ha he => hd (h₁₂ a ha b List.mem_cons_self (he.trans hl))) fun c hc he => ?_
  exact (List.pairwise_cons.mp h₂).1 c hc (hl ▸ he)

lemma LabelsOk.unique (h : LabelsOk bufs l) {b c : Fin NBUF} (hb : b ∈ l) (hc : c ∈ l)
    (hbc : b ≠ c) (hl : label (bufs b) = label (bufs c)) : Dead (bufs b) ∨ Dead (bufs c) := by
  have hs : l.Pairwise fun a c => label (bufs a) = label (bufs c) → Dead (bufs a) ∨ Dead (bufs c) :=
    h.imp fun hac he => .inr (hac he)
  have : Std.Symm fun a c => label (bufs a) = label (bufs c) → Dead (bufs a) ∨ Dead (bufs c) :=
    ⟨fun _ _ hac he => (hac he.symm).symm⟩
  exact hs.forall hb hc hbc hl

end Labels

/-! ### The observations -/

section Trace

variable {d₀ : ℕ → ℕ → Block} {obs o : List Obs}

@[simp] lemma queuedBufs_append : queuedBufs (obs ++ o) = queuedBufs obs ++ queuedBufs o := List.filterMap_append
@[simp] lemma doneBufs_append : doneBufs (obs ++ o) = doneBufs obs ++ doneBufs o := List.filterMap_append

lemma latest_append : latest d₀ (obs ++ o) = apply (latest d₀ obs) (o.filterMap Obs.wrote?) := by
  simp only [latest, List.filterMap_append, apply_append]

lemma NoFault.of_append (h : NoFault (obs ++ o)) : NoFault obs :=
  ⟨fun p dev blockno hm => h.1 p dev blockno (List.mem_append_left o hm), fun b hm => h.2 b (List.mem_append_left o hm)⟩

lemma ReadsLatest.append_one {x : Obs} (h : ReadsLatest d₀ obs)
    (hx : ∀ p dev blockno d, x = .read p dev blockno d → d = latest d₀ obs (dev, blockno)) : ReadsLatest d₀ (obs ++ [x]) := by
  intro pre p dev blockno d post he
  rcases post.eq_nil_or_concat' with rfl | ⟨post, y, rfl⟩
  · obtain ⟨he₁, hy⟩ := List.append_inj' he rfl
    subst he₁
    exact hx p dev blockno d (List.singleton_inj.mp hy)
  · rw [← List.cons_append, ← List.append_assoc] at he
    exact h pre p dev blockno d post (List.append_inj' he rfl).1

lemma ReadsLatest.append_noRead (h : ReadsLatest d₀ obs) (ho : ∀ x ∈ o, ∀ p dev blockno d, x ≠ .read p dev blockno d) :
    ReadsLatest d₀ (obs ++ o) := by
  induction o using List.reverseRecOn with
  | nil => simpa using h
  | append_singleton o x ih =>
    rw [← List.append_assoc]
    exact (ih fun y hy => ho y (List.mem_append_left _ hy)).append_one fun p dev blockno d hx =>
      absurd hx (ho x (by simp) p dev blockno d)

end Trace

/-! ### The invariant -/

/-- `idequeue` runs through the pending requests `q`, which are the requests not yet finished in
the order they came; the controller runs the first; and a request is pending exactly while its
process sleeps in `iderw` and its buffer is not `B_VALID` without `B_DIRTY`. -/
structure QueueOk (st : State) (obs : List Obs) (q : List (Fin NBUF)) : Prop where
  chain : Chain st.qnext st.idequeue q
  fifo : doneBufs obs ++ q = queuedBufs obs
  ctrl : st.ctrl = q.head?.map fun b => (st.bufs b).cmd
  pending : ∀ b, b ∈ q ↔ (∃ p, InIderw (st.calls p) b) ∧ ¬((st.bufs b).valid = true ∧ (st.bufs b).dirty = false)

/-- With no fault: every buffer names drive 0 or 1, a valid buffer holds the latest data of its
block, so does the disk for a block no buffer holds dirty, and every `bread` returned the latest. -/
structure Coherent (d₀ : ℕ → ℕ → Block) (st : State) (obs : List Obs) : Prop where
  devs : ∀ b, (st.bufs b).dev < 2
  cache : ∀ b, (st.bufs b).valid = true → (st.bufs b).data = latest d₀ obs (label (st.bufs b))
  disk : ∀ dev blockno, dev < 2 → (∀ b, label (st.bufs b) = (dev, blockno) → (st.bufs b).dirty = false) →
    st.disk dev blockno = latest d₀ obs (dev, blockno)
  reads : ReadsLatest d₀ obs

/-- What holds in every reachable state. -/
structure Good (d₀ : ℕ → ℕ → Block) (st : State) (obs : List Obs) : Prop where
  ring : ∃ l, st.links.Ring l ∧ (∀ b, b ∈ l) ∧ LabelsOk st.bufs l
  refcnt : ∀ b, (st.bufs b).refcnt = acquirers st.calls b + holds (st.bufs b)
  holder : ∀ b p, (st.bufs b).lock = some p → ¬ InIderw (st.calls p) b → (st.bufs b).valid = true
  io : ∀ p b, InIderw (st.calls p) b → (st.bufs b).lock = some p
  dirty_valid : ∀ b, (st.bufs b).dirty = true → (st.bufs b).valid = true
  queue : ∃ q, QueueOk st obs q
  coherent : NoFault obs → Coherent d₀ st obs

lemma binit_ring (d₀ : ℕ → ℕ → Block) : (binit d₀).links.Ring (List.finRange NBUF).reverse := by
  have h := DLinks.Ring.pushFronts (List.finRange NBUF) DLinks.ring_nil (by simpa using List.nodup_finRange NBUF)
  rw [List.append_nil] at h
  exact h

lemma good_binit (d₀ : ℕ → ℕ → Block) : Good d₀ (binit d₀) [] where
  ring := ⟨(List.finRange NBUF).reverse, binit_ring d₀, fun b => by simp,
    List.pairwise_of_forall fun _ _ _ => ⟨rfl, rfl, rfl⟩⟩
  refcnt b := by simp [binit, acquirers, acquiring, holds]
  holder b p h := by simp [binit] at h
  io p b h := by simp [binit, InIderw] at h
  dirty_valid b h := by simp [binit] at h
  queue := ⟨[], .nil, rfl, rfl, fun b => by simp [binit, InIderw]⟩
  coherent _ := ⟨fun b => by simp [binit], fun b h => by simp [binit] at h, fun _ _ _ _ => rfl,
    fun pre p dev blockno d post h => by simp at h⟩

/-! ### Facts the steps use -/

section Facts

variable {d₀ : ℕ → ℕ → Block} {st : State} {obs : List Obs} {q : List (Fin NBUF)} {b : Fin NBUF} {p : Fin NPROC}

lemma acquirers_update (calls : Fin NPROC → Option Call) (p : Fin NPROC) (c : Option Call) (b : Fin NBUF) :
    acquirers (Function.update calls p c) b + acquiring (calls p) b = acquirers calls b + acquiring c b :=
  sum_update_add (fun c => acquiring c b) calls p c

lemma inIderw_update {calls : Fin NPROC → Option Call} {q : Fin NPROC} {c : Option Call} :
    InIderw (Function.update calls p c q) b ↔ if q = p then InIderw c b else InIderw (calls q) b := by
  by_cases hq : q = p
  · subst hq
    simp
  · simp [Function.update_of_ne hq, hq]

@[simp] lemma not_inIderw_none : ¬ InIderw none b := by simp [InIderw]

@[simp] lemma not_inIderw_acquire {b' : Fin NBUF} : ¬ InIderw (some (.acquire b')) b := by simp [InIderw]

lemma length_le_of_nodup {l : List (Fin NBUF)} (h : l.Nodup) : l.length ≤ NBUF := by
  simpa using h.length_le_card

lemma Good.refcnt_pos (hg : Good d₀ st obs) (h : (st.bufs b).lock = some p) : 0 < (st.bufs b).refcnt := by
  rw [hg.refcnt b, holds, if_neg (by simp [h])]
  omega

lemma Good.lock_of_refcnt (hg : Good d₀ st obs) (h : (st.bufs b).refcnt = 0) : (st.bufs b).lock = none := by
  cases hl : (st.bufs b).lock with
  | none => rfl
  | some p => exact absurd h (Nat.pos_iff_ne_zero.mp (hg.refcnt_pos hl))

lemma Good.not_inIderw (hg : Good d₀ st obs) (h : (st.bufs b).lock = none ∨
    ∃ p, (st.bufs b).lock = some p ∧ ¬ InIderw (st.calls p) b) (q : Fin NPROC) : ¬ InIderw (st.calls q) b := by
  intro hq
  have hl := hg.io q b hq
  rcases h with h | ⟨p, hp, hc⟩
  · rw [h] at hl
    cases hl
  · rw [hp, Option.some_inj] at hl
    exact hc (hl ▸ hq)

lemma QueueOk.not_mem (hq : QueueOk st obs q) (hg : ∀ p, ¬ InIderw (st.calls p) b) : b ∉ q := fun hb =>
  (((hq.pending b).mp hb).1.elim fun p hp => hg p hp)

/-- Two buffers that differ at most in their lock and references. -/
structure SameData (x y : Buf) : Prop where
  valid : x.valid = y.valid
  dirty : x.dirty = y.dirty
  dev : x.dev = y.dev
  blockno : x.blockno = y.blockno
  data : x.data = y.data

lemma SameData.label {x y : Buf} (h : SameData x y) : label x = label y := by
  simp [BioInv.label, h.dev, h.blockno]

lemma SameData.cmd {x y : Buf} (h : SameData x y) : x.cmd = y.cmd := by
  simp [Buf.cmd, h.dev, h.blockno, h.dirty, h.data]

lemma Coherent.frame {st' : State} {o : List Obs} (hc : Coherent d₀ st obs) (hs : ∀ b, SameData (st'.bufs b) (st.bufs b))
    (hd : st'.disk = st.disk) (hw : o.filterMap Obs.wrote? = []) (hr : ReadsLatest d₀ (obs ++ o)) :
    Coherent d₀ st' (obs ++ o) := by
  have hl : latest d₀ (obs ++ o) = latest d₀ obs := by rw [latest_append, hw, apply_nil]
  refine ⟨fun b => (hs b).dev ▸ hc.devs b, fun b hv => ?_, fun dev blockno h2 hn => ?_, hr⟩
  · rw [(hs b).data, (hs b).label, hl]
    exact hc.cache b ((hs b).valid ▸ hv)
  · rw [hd, hl]
    exact hc.disk dev blockno h2 fun b hb => (hs b).dirty ▸ hn b ((hs b).label ▸ hb)

lemma QueueOk.frame {st' : State} {o : List Obs} (hq : QueueOk st obs q) (hid : st'.idequeue = st.idequeue)
    (hn : st'.qnext = st.qnext) (hc : st'.ctrl = st.ctrl) (ho : queuedBufs o = [] ∧ doneBufs o = [])
    (hcmd : ∀ b ∈ q, (st'.bufs b).cmd = (st.bufs b).cmd)
    (hp : ∀ b, ((∃ p, InIderw (st'.calls p) b) ∧ ¬((st'.bufs b).valid = true ∧ (st'.bufs b).dirty = false)) ↔
      ((∃ p, InIderw (st.calls p) b) ∧ ¬((st.bufs b).valid = true ∧ (st.bufs b).dirty = false))) :
    QueueOk st' (obs ++ o) q := by
  refine ⟨hid ▸ hn ▸ hq.chain, by simp [ho.1, ho.2, hq.fifo], ?_, fun b => (hq.pending b).trans (hp b).symm⟩
  rw [hc, hq.ctrl]
  cases q with
  | nil => rfl
  | cons a q => simp [hcmd a List.mem_cons_self]

lemma QueueOk.enqueue {havedisk1 : Bool} {st₂ : State} {c : Call} {o : List Obs} (hq : QueueOk st obs q)
    (hb : ∀ q', ¬ InIderw (st.calls q') b) (hp : ∀ b', ¬ InIderw (st.calls p) b')
    (hi : iderw havedisk1 p b st = .ok st₂) (hc : ∀ b', InIderw (some c) b' ↔ b' = b)
    (ho : queuedBufs o = [b] ∧ doneBufs o = []) : QueueOk (st₂.setCall p (some c)) (obs ++ o) (q ++ [b]) := by
  obtain ⟨-, hv, ctrl, rfl, hhead, hnhead⟩ := iderw_ok hi
  have hbq : b ∉ q := hq.not_mem hb
  have hch := append_chain hq.chain hbq (length_le_of_nodup hq.chain.nodup)
  refine ⟨hch, by simp [ho.1, ho.2, ← hq.fifo], ?_, fun b' => ?_⟩
  · simp only [State.setCall_ctrl]
    by_cases he : (append NBUF st.idequeue st.qnext b).1 = some b
    · rw [(hhead he).2]
      rw [hch.head] at he
      cases q with
      | nil => rfl
      | cons a q => simp at he; exact absurd (he ▸ List.mem_cons_self) hbq
    · rw [hnhead he, hq.ctrl]
      rw [hch.head] at he
      cases q with
      | nil => simp at he
      | cons a q => rfl
  · simp only [State.setCall_calls, State.setCall_bufs, List.mem_append, List.mem_singleton, hq.pending b']
    constructor
    · rintro (⟨⟨q', hq'⟩, hf⟩ | rfl)
      · refine ⟨⟨q', ?_⟩, hf⟩
        rw [inIderw_update]
        split_ifs with he
        · exact absurd (he ▸ hq') (hp b')
        · exact hq'
      · exact ⟨⟨p, by simp [(hc b').mpr rfl]⟩, hv⟩
    · rintro ⟨⟨q', hq'⟩, hf⟩
      rw [inIderw_update] at hq'
      split_ifs at hq' with he
      · exact .inr ((hc b').mp hq')
      · exact .inl ⟨⟨q', hq'⟩, hf⟩

lemma Coherent.write {st' : State} {l : List (Fin NBUF)} {o : List Obs} {d : Block} (hc : Coherent d₀ st obs)
    (hlab : LabelsOk st.bufs l) (hall : ∀ b, b ∈ l) (hlive : ¬ Dead (st.bufs b))
    (hbufs : st'.bufs = Function.update st.bufs b { st.bufs b with data := d, dirty := true }) (hdisk : st'.disk = st.disk)
    (hw : o.filterMap Obs.wrote? = [(label (st.bufs b), d)]) (hr : ∀ x ∈ o, ∀ p dev blockno d, x ≠ .read p dev blockno d) :
    Coherent d₀ st' (obs ++ o) := by
  have hl : latest d₀ (obs ++ o) = Function.update (latest d₀ obs) (label (st.bufs b)) d := by
    rw [latest_append, hw, apply_singleton]
  -- another valid buffer holds another block
  have hother : ∀ b', b' ≠ b → (st.bufs b').valid = true → label (st.bufs b') ≠ label (st.bufs b) := by
    intro b' hb' hv he
    rcases hlab.unique (hall b') (hall b) hb' he with hd | hd
    · simp [hd.2.1] at hv
    · exact hlive hd
  refine ⟨fun b' => ?_, fun b' hv => ?_, fun dv bn h2 hn => ?_, hc.reads.append_noRead hr⟩
  · rw [hbufs]
    by_cases hb' : b' = b
    · subst hb'; simpa using hc.devs b'
    · simpa [hb'] using hc.devs b'
  · rw [hbufs] at hv ⊢
    rw [hl]
    by_cases hb' : b' = b
    · subst hb'; simp [label]
    · simp only [Function.update_of_ne hb'] at hv ⊢
      rw [Function.update_of_ne (hother b' hb' hv), hc.cache b' hv]
  · by_cases he : label (st.bufs b) = (dv, bn)
    · have := hn b
      simp [hbufs, label] at this he
      exact absurd (this he.1 he.2) (by simp)
    · rw [hdisk, hl, Function.update_of_ne (Ne.symm he)]
      refine hc.disk dv bn h2 fun b' hb'' => ?_
      by_cases hb' : b' = b
      · exact absurd (hb' ▸ hb'') he
      · have := hn b'
        simp only [hbufs, Function.update_of_ne hb'] at this
        exact this hb''

end Facts

/-! ### Each step keeps the invariant -/

section Steps

variable {d₀ : ℕ → ℕ → Block} {st st' : State} {obs o : List Obs} {havedisk1 : Bool} {p : Fin NPROC}
  {b : Fin NBUF} {dev blockno : ℕ}

lemma Good.found (hg : Good d₀ st obs) (hc : st.calls p = none)
    (hb : st.links.scanNext (fun b => hasBlock dev blockno (st.bufs b)) NBUF (st.links.next none) = some b) :
    Good d₀ ((st.setBuf b { st.bufs b with refcnt := (st.bufs b).refcnt + 1 }).setCall p (some (.acquire b)))
      (obs ++ [.get p dev blockno]) := by
  obtain ⟨l, hring, hall, hlab⟩ := hg.ring
  rw [hring.scanNext _ (length_le_of_nodup hring.1), List.find?_eq_some_iff_append] at hb
  obtain ⟨hbb, l₁, l₂, hl, hl₁⟩ := hb
  -- only the reference count of `b` and the call of `p` change
  have hs : ∀ b', SameData (Function.update st.bufs b { st.bufs b with refcnt := (st.bufs b).refcnt + 1 } b')
      (st.bufs b') := by
    intro b'
    by_cases hb' : b' = b
    · subst hb'; simp [SameData.mk]
    · simp [hb', SameData.mk]
  have hlock : ∀ b', (Function.update st.bufs b { st.bufs b with refcnt := (st.bufs b).refcnt + 1 } b').lock =
      (st.bufs b').lock := by
    intro b'
    by_cases hb' : b' = b
    · subst hb'; simp
    · simp [hb']
  have hcall : ∀ q b', InIderw (Function.update st.calls p (some (.acquire b)) q) b' ↔ InIderw (st.calls q) b' := by
    intro q b'
    rw [inIderw_update]
    split_ifs with hq
    · subst hq; simp [hc]
    · rfl
  refine ⟨⟨l, hring, hall, ?_⟩, fun b' => ?_, fun b' q hl' hq => ?_, fun q b' hq => ?_, fun b' hd => ?_, ?_, fun hf => ?_⟩
  · subst hl
    refine hlab.update hring.1 (fun a ha he => ?_) fun c hc he => ?_
    · have := hl₁ a ha
      simp only [hasBlock, label, Prod.mk.injEq] at he this hbb
      simp_all
    · exact (List.pairwise_cons.mp (List.pairwise_append.mp hlab).2.1).1 c hc he
  · have hu := acquirers_update st.calls p (some (.acquire b)) b'
    have hr := hg.refcnt b'
    by_cases hb' : b' = b
    · subst hb'
      simp [acquiring, hc, holds] at hu hr ⊢
      omega
    · simp [acquiring, hc, hb', Ne.symm hb'] at hu ⊢
      omega
  · simp only [State.setCall_bufs, State.setBuf_bufs, State.setCall_calls, State.setBuf_calls, hcall, hlock] at hl' hq ⊢
    rw [(hs b').valid]
    exact hg.holder b' q hl' hq
  · simp only [State.setCall_bufs, State.setBuf_bufs, State.setCall_calls, State.setBuf_calls, hcall, hlock] at hq ⊢
    exact hg.io q b' hq
  · simp only [State.setCall_bufs, State.setBuf_bufs, (hs b').valid, (hs b').dirty] at hd ⊢
    exact hg.dirty_valid b' hd
  · obtain ⟨q, hq⟩ := hg.queue
    refine ⟨q, hq.frame rfl rfl rfl (by simp [queuedBufs, doneBufs, Obs.queued?, Obs.done?])
      (fun b' _ => (hs b').cmd) fun b' => ?_⟩
    simp only [State.setCall_bufs, State.setBuf_bufs, State.setCall_calls, State.setBuf_calls, hcall, (hs b').valid, (hs b').dirty]
  · exact (hg.coherent hf.of_append).frame hs rfl (by simp [Obs.wrote?])
      (((hg.coherent hf.of_append).reads).append_noRead (by simp))

lemma Good.recycled (hg : Good d₀ st obs) (hc : st.calls p = none)
    (hn : st.links.scanNext (fun b => hasBlock dev blockno (st.bufs b)) NBUF (st.links.next none) = none)
    (hb : st.links.scanPrev (fun b => recyclable (st.bufs b)) NBUF (st.links.prev none) = some b) :
    Good d₀ ((st.setBuf b
        { st.bufs b with dev := dev, blockno := blockno, valid := false, dirty := false, refcnt := 1 }).setCall p
      (some (.acquire b))) (obs ++ [.get p dev blockno]) := by
  obtain ⟨l, hring, hall, hlab⟩ := hg.ring
  rw [hring.scanNext _ (length_le_of_nodup hring.1), List.find?_eq_none] at hn
  rw [hring.scanPrev _ (length_le_of_nodup hring.1)] at hb
  have hrec := List.find?_some hb
  simp only [recyclable, Bool.and_eq_true, beq_iff_eq, Bool.not_eq_eq_eq_not, Bool.not_true] at hrec
  -- `b` had no reference, so no process held or awaited it
  have hlk := hg.lock_of_refcnt hrec.1
  have hfree := hg.not_inIderw (.inl hlk)
  have hacq : acquirers st.calls b = 0 := by have := hg.refcnt b; omega
  have hfresh : ∀ a, label (st.bufs a) ≠ (dev, blockno) := fun a he =>
    hn a (hall a) (by simp only [label, Prod.mk.injEq] at he; simp [hasBlock, he])
  set x : Buf := { st.bufs b with dev := dev, blockno := blockno, valid := false, dirty := false, refcnt := 1 }
  have hbuf : ∀ b', b' ≠ b → Function.update st.bufs b x b' = st.bufs b' := fun b' hb' => Function.update_of_ne hb' _ _
  have hcall : ∀ q b', InIderw (Function.update st.calls p (some (.acquire b)) q) b' ↔ InIderw (st.calls q) b' := by
    intro q b'
    rw [inIderw_update]
    split_ifs with hq
    · subst hq; simp [hc]
    · rfl
  refine ⟨⟨l, hring, hall, ?_⟩, fun b' => ?_, fun b' q hl' hq => ?_, fun q b' hq => ?_, fun b' hd => ?_, ?_, fun hf => ?_⟩
  · obtain ⟨l₁, l₂, rfl⟩ := List.append_of_mem (hall b)
    exact hlab.update hring.1 (fun a _ he => absurd he (hfresh a)) fun c _ he => absurd he.symm (hfresh c)
  · have hu := acquirers_update st.calls p (some (.acquire b)) b'
    by_cases hb' : b' = b
    · subst hb'
      simp [acquiring, hc, holds, x, hlk] at hu ⊢
      omega
    · have hr := hg.refcnt b'
      simp [acquiring, hc, hb', Ne.symm hb'] at hu ⊢
      omega
  · simp only [State.setCall_bufs, State.setBuf_bufs, State.setCall_calls, State.setBuf_calls, hcall] at hl' hq ⊢
    by_cases hb' : b' = b
    · subst hb'
      simp [x, hlk] at hl'
    · rw [hbuf b' hb'] at hl' ⊢
      exact hg.holder b' q hl' hq
  · simp only [State.setCall_bufs, State.setBuf_bufs, State.setCall_calls, State.setBuf_calls, hcall] at hq ⊢
    by_cases hb' : b' = b
    · exact absurd hq (hb' ▸ hfree q)
    · rw [hbuf b' hb']
      exact hg.io q b' hq
  · simp only [State.setCall_bufs, State.setBuf_bufs] at hd ⊢
    by_cases hb' : b' = b
    · subst hb'
      simp [x] at hd
    · rw [hbuf b' hb'] at hd ⊢
      exact hg.dirty_valid b' hd
  · obtain ⟨q, hq⟩ := hg.queue
    have hbq : b ∉ q := hq.not_mem hfree
    refine ⟨q, hq.frame rfl rfl rfl (by simp [queuedBufs, doneBufs, Obs.queued?, Obs.done?])
      (fun b' hb' => by simp [hbuf b' (fun e => hbq (e ▸ hb'))]) fun b' => ?_⟩
    simp only [State.setCall_bufs, State.setBuf_bufs, State.setCall_calls, State.setBuf_calls, hcall]
    by_cases hb' : b' = b
    · subst hb'
      simp [hfree]
    · rw [hbuf b' hb']
  · have hc₀ := hg.coherent hf.of_append
    have hl : latest d₀ (obs ++ [.get p dev blockno]) = latest d₀ obs := by
      rw [latest_append]
      rfl
    refine ⟨fun b' => ?_, fun b' hv => ?_, fun dv bn h2 hd => ?_, hc₀.reads.append_noRead (by simp)⟩
    · by_cases hb' : b' = b
      · subst hb'
        simpa [x] using hf.1 p dev blockno (by simp)
      · simpa [hbuf b' hb'] using hc₀.devs b'
    · by_cases hb' : b' = b
      · subst hb'
        simp [x] at hv
      · simp only [State.setCall_bufs, State.setBuf_bufs, hbuf b' hb'] at hv ⊢
        rw [hl]
        exact hc₀.cache b' hv
    · simp only [State.setCall_disk, State.setBuf_disk, hl]
      refine hc₀.disk dv bn h2 fun b' he => ?_
      by_cases hb' : b' = b
      · subst hb'
        exact hrec.2
      · have := hd b'
        simp only [State.setCall_bufs, State.setBuf_bufs, hbuf b' hb'] at this
        exact this he

lemma Good.bread (hg : Good d₀ st obs) (h : step havedisk1 st (.bread p dev blockno) = .ok st' o) :
    Good d₀ st' (obs ++ o) := by
  obtain ⟨hc, rfl, b, st₁, hb, rfl⟩ := step_bread h
  rcases bget_ok hb with ⟨hf, rfl⟩ | ⟨hn, hr, rfl⟩
  · exact hg.found hc hf
  · exact hg.recycled hc hn hr

lemma Good.lock (hg : Good d₀ st obs) (h : step havedisk1 st (.lock p) = .ok st' o) : Good d₀ st' (obs ++ o) := by
  obtain ⟨b, hc, hlk, hcase⟩ := step_lock h
  obtain ⟨l, hring, hall, hlab⟩ := hg.ring
  have hfree := hg.not_inIderw (.inl hlk)
  set x : Buf := { st.bufs b with lock := some p }
  have hs : ∀ b', SameData (Function.update st.bufs b x b') (st.bufs b') := by
    intro b'
    by_cases hb' : b' = b
    · subst hb'; simp [x, SameData.mk]
    · simp [hb', SameData.mk]
  have hlock : ∀ b', b' ≠ b → (Function.update st.bufs b x b').lock = (st.bufs b').lock := fun b' hb' => by
    simp [hb']
  -- `p` leaves `acquiresleep`; a process not in `iderw` stays out of it
  have hcall : ∀ (c : Option Call) q b', ¬ InIderw c b' →
      (¬ InIderw (Function.update st.calls p c q) b' ↔ ¬ InIderw (st.calls q) b') := by
    intro c q b' hc'
    rw [inIderw_update]
    split_ifs with hq
    · subst hq; simp [hc, hc']
    · rfl
  have hacq : ∀ (c : Option Call), (∀ b', acquiring c b' = 0) → ∀ b',
      acquirers (Function.update st.calls p c) b' + (if b' = b then 1 else 0) = acquirers st.calls b' := by
    intro c hc0 b'
    have hu := acquirers_update st.calls p c b'
    have ha : acquiring (some (.acquire b)) b' = if b' = b then 1 else 0 := by
      by_cases hb' : b' = b
      · simp [acquiring, hb']
      · simp [acquiring, hb', Ne.symm hb']
    rw [hc0, hc, ha] at hu
    omega
  have hrefcnt : ∀ (c : Option Call), (∀ b', acquiring c b' = 0) → ∀ b',
      (Function.update st.bufs b x b').refcnt = acquirers (Function.update st.calls p c) b' +
        holds (Function.update st.bufs b x b') := by
    intro c hc0 b'
    have ha := hacq c hc0 b'
    have hr := hg.refcnt b'
    by_cases hb' : b' = b
    · subst hb'
      simp [x, holds, hlk] at ha hr ⊢
      omega
    · simp [hb'] at ha ⊢
      omega
  have hlab' : LabelsOk (Function.update st.bufs b x) l :=
    hlab.update_same hring.1 (hall b) rfl fun hd => by simpa [x, Dead] using hd
  rcases hcase with ⟨hv, rfl, rfl⟩ | ⟨hv, st₂, hi, rfl, rfl⟩
  · -- the buffer is valid: `bread` returns it
    have hc0 : ∀ b', acquiring none b' = 0 := fun _ => rfl
    refine ⟨⟨l, hring, hall, hlab'⟩, hrefcnt none hc0, fun b' q hl' hq => ?_, fun q b' hq => ?_, fun b' hd => ?_, ?_,
      fun hf => ?_⟩
    · simp only [State.setCall_bufs, State.setBuf_bufs, State.setCall_calls, State.setBuf_calls] at hl' hq ⊢
      rw [(hs b').valid]
      by_cases hb' : b' = b
      · subst hb'; exact hv
      · rw [hlock b' hb'] at hl'
        exact hg.holder b' q hl' ((hcall none q b' (by simp)).mp hq)
    · simp only [State.setCall_bufs, State.setBuf_bufs, State.setCall_calls, State.setBuf_calls] at hq ⊢
      have hq' : InIderw (st.calls q) b' := not_not.mp fun hn => (hcall none q b' (by simp)).mpr hn hq
      have hb' : b' ≠ b := fun e => hfree q (e ▸ hq')
      rw [hlock b' hb']
      exact hg.io q b' hq'
    · simp only [State.setCall_bufs, State.setBuf_bufs, (hs b').valid, (hs b').dirty] at hd ⊢
      exact hg.dirty_valid b' hd
    · obtain ⟨q, hq⟩ := hg.queue
      refine ⟨q, hq.frame rfl rfl rfl (by simp [queuedBufs, doneBufs, Obs.queued?, Obs.done?])
        (fun b' _ => (hs b').cmd) fun b' => ?_⟩
      simp only [State.setCall_bufs, State.setBuf_bufs, State.setCall_calls, State.setBuf_calls, (hs b').valid,
        (hs b').dirty]
      refine and_congr_left' (exists_congr fun q => ?_)
      exact not_iff_not.mp (hcall none q b' (by simp))
    · have hc₀ := hg.coherent hf.of_append
      refine hc₀.frame hs rfl rfl (hc₀.reads.append_one fun p' dev blockno d he => ?_)
      cases he
      exact hc₀.cache b hv
  · -- not valid: `iderw` queues the read and `p` sleeps in it
    obtain ⟨q, hq⟩ := hg.queue
    have hq₁ : QueueOk (st.setBuf b x) (obs ++ []) q :=
      hq.frame rfl rfl rfl (by simp [queuedBufs, doneBufs]) (fun b' _ => (hs b').cmd) fun b' => by
        simp only [State.setBuf_bufs, State.setBuf_calls, (hs b').valid, (hs b').dirty]
    rw [List.append_nil] at hq₁
    have hq₂ := hq₁.enqueue (c := .read b) (o := [.queued b]) hfree (fun b' => by simp [hc]) hi
      (fun b' => by simp [InIderw, eq_comm]) (by simp [queuedBufs, doneBufs, Obs.queued?, Obs.done?])
    obtain ⟨-, -, ctrl, rfl, -, -⟩ := iderw_ok hi
    have hc0 : ∀ b', acquiring (some (.read b)) b' = 0 := fun _ => rfl
    have hnot : ∀ b', b' ≠ b → ¬ InIderw (some (.read b)) b' := fun b' hb' => by simp [InIderw, Ne.symm hb']
    refine ⟨⟨l, hring, hall, hlab'⟩, hrefcnt _ hc0, fun b' q hl' hq => ?_, fun q b' hq => ?_, fun b' hd => ?_, ⟨_, hq₂⟩,
      fun hf => ?_⟩
    · simp only [State.setCall_bufs, State.setBuf_bufs, State.setCall_calls, State.setBuf_calls] at hl' hq ⊢
      by_cases hb' : b' = b
      · subst hb'
        simp only [x, Function.update_self, Option.some_inj] at hl'
        subst hl'
        exact absurd (by simp [InIderw]) hq
      · rw [(hs b').valid]
        rw [hlock b' hb'] at hl'
        exact hg.holder b' q hl' ((hcall _ q b' (hnot b' hb')).mp hq)
    · simp only [State.setCall_bufs, State.setBuf_bufs, State.setCall_calls, State.setBuf_calls] at hq ⊢
      by_cases hb' : b' = b
      · subst hb'
        by_cases hqp : q = p
        · subst hqp; simp [x]
        · rw [inIderw_update, if_neg hqp] at hq
          exact absurd hq (hfree q)
      · have hq' : InIderw (st.calls q) b' := not_not.mp fun hn => (hcall _ q b' (hnot b' hb')).mpr hn hq
        rw [hlock b' hb']
        exact hg.io q b' hq'
    · simp only [State.setCall_bufs, State.setBuf_bufs, (hs b').valid, (hs b').dirty] at hd ⊢
      exact hg.dirty_valid b' hd
    · have hc₀ := hg.coherent hf.of_append
      exact hc₀.frame hs rfl rfl (hc₀.reads.append_noRead (by simp))

lemma Good.wake (hg : Good d₀ st obs) (h : step havedisk1 st (.wake p) = .ok st' o) : Good d₀ st' (obs ++ o) := by
  obtain ⟨b, hv, hd, rfl, hcase⟩ := step_wake h
  have hin : InIderw (st.calls p) b := by rcases hcase with ⟨h, -⟩ | ⟨h, -⟩ <;> simp [InIderw, h]
  have hc0 : ∀ b', acquiring (st.calls p) b' = 0 := by
    intro b'; rcases hcase with ⟨h, -⟩ | ⟨h, -⟩ <;> simp [acquiring, h]
  have hcall : ∀ q b', b' ≠ b → (InIderw (Function.update st.calls p none q) b' ↔ InIderw (st.calls q) b') := by
    intro q b' hb'
    rw [inIderw_update]
    split_ifs with hq
    · subst hq
      rcases hcase with ⟨h, -⟩ | ⟨h, -⟩ <;> simp [InIderw, h, hb', Ne.symm hb']
    · rfl
  -- only `p` was in `iderw` on `b`: it holds `b`
  have honly : ∀ q, InIderw (st.calls q) b → q = p := fun q hq =>
    Option.some_inj.mp ((hg.io q b hq).symm.trans (hg.io p b hin))
  refine ⟨hg.ring, fun b' => ?_, fun b' q hl' hq => ?_, fun q b' hq => ?_, hg.dirty_valid, ?_, fun hf => ?_⟩
  · have hu := acquirers_update st.calls p none b'
    rw [hc0] at hu
    simp only [State.setCall_bufs, State.setCall_calls]
    rw [hg.refcnt b']
    simp [acquiring] at hu
    omega
  · simp only [State.setCall_bufs, State.setCall_calls] at hl' hq ⊢
    by_cases hb' : b' = b
    · subst hb'; exact hv
    · exact hg.holder b' q hl' (fun h => hq ((hcall q b' hb').mpr h))
  · simp only [State.setCall_bufs, State.setCall_calls] at hq ⊢
    by_cases hb' : b' = b
    · subst hb'
      rw [inIderw_update] at hq
      split_ifs at hq with hqp
      · simp at hq
      · exact absurd (honly q hq) hqp
    · exact hg.io q b' ((hcall q b' hb').mp hq)
  · obtain ⟨q, hq⟩ := hg.queue
    refine ⟨q, hq.frame rfl rfl rfl ?_ (fun _ _ => rfl) fun b' => ?_⟩
    · rcases hcase with ⟨-, rfl⟩ | ⟨-, rfl⟩ <;> simp [queuedBufs, doneBufs, Obs.queued?, Obs.done?]
    · simp only [State.setCall_bufs, State.setCall_calls]
      by_cases hb' : b' = b
      · subst hb'
        simp [hv, hd]
      · simp only [hcall _ b' hb']
  · have hc₀ := hg.coherent hf.of_append
    refine hc₀.frame (fun _ => ⟨rfl, rfl, rfl, rfl, rfl⟩) rfl ?_ ?_
    · rcases hcase with ⟨-, rfl⟩ | ⟨-, rfl⟩ <;> rfl
    · rcases hcase with ⟨-, rfl⟩ | ⟨-, rfl⟩
      · exact hc₀.reads.append_one fun p' dev blockno d he => by
          cases he
          exact hc₀.cache b hv
      · simpa using hc₀.reads

lemma Good.brelse (hg : Good d₀ st obs) (h : step havedisk1 st (.brelse p b) = .ok st' o) : Good d₀ st' (obs ++ o) := by
  obtain ⟨hc, hlk, rfl, hcase⟩ := step_brelse h
  obtain ⟨l, hring, hall, hlab⟩ := hg.ring
  have hfree := hg.not_inIderw (.inr ⟨p, hlk, by simp [hc]⟩)
  have hv : (st.bufs b).valid = true := hg.holder b p hlk (by simp [hc])
  set x : Buf := { st.bufs b with lock := none, refcnt := (st.bufs b).refcnt - 1 }
  have hs : ∀ b', SameData (Function.update st.bufs b x b') (st.bufs b') := by
    intro b'
    by_cases hb' : b' = b
    · subst hb'; simp [x, SameData.mk]
    · simp [hb', SameData.mk]
  have hlive : ¬ Dead (st.bufs b) := fun hd => by simp [hd.2.1] at hv
  have hpos := hg.refcnt_pos hlk
  -- the fields all steps but the move share
  have hrest : ∀ st₁ : State, st₁.bufs = Function.update st.bufs b x → st₁.calls = st.calls →
      st₁.idequeue = st.idequeue → st₁.qnext = st.qnext → st₁.ctrl = st.ctrl → st₁.disk = st.disk →
      (∀ b', (st₁.bufs b').refcnt = acquirers st₁.calls b' + holds (st₁.bufs b')) ∧
      (∀ b' q, (st₁.bufs b').lock = some q → ¬ InIderw (st₁.calls q) b' → (st₁.bufs b').valid = true) ∧
      (∀ q b', InIderw (st₁.calls q) b' → (st₁.bufs b').lock = some q) ∧
      (∀ b', (st₁.bufs b').dirty = true → (st₁.bufs b').valid = true) ∧
      (∃ q, QueueOk st₁ (obs ++ []) q) ∧ (NoFault (obs ++ []) → Coherent d₀ st₁ (obs ++ [])) := by
    intro st₁ hb hcl hid hqn hct hdk
    refine ⟨fun b' => ?_, fun b' q hl' hq => ?_, fun q b' hq => ?_, fun b' hd => ?_, ?_, fun hf => ?_⟩
    · rw [hb, hcl]
      have hr := hg.refcnt b'
      by_cases hb' : b' = b
      · subst hb'
        simp [x, holds, hlk] at hr ⊢
        omega
      · simpa [hb'] using hr
    · rw [hb] at hl' ⊢
      rw [hcl] at hq
      by_cases hb' : b' = b
      · subst hb'; simp [x] at hl'
      · rw [Function.update_of_ne hb'] at hl' ⊢
        exact hg.holder b' q hl' hq
    · rw [hcl] at hq
      rw [hb]
      by_cases hb' : b' = b
      · exact absurd (hb' ▸ hq) (hfree q)
      · rw [Function.update_of_ne hb']
        exact hg.io q b' hq
    · rw [hb, (hs b').valid]
      rw [hb, (hs b').dirty] at hd
      exact hg.dirty_valid b' hd
    · obtain ⟨q, hq⟩ := hg.queue
      refine ⟨q, hq.frame hid hqn hct (by simp [queuedBufs, doneBufs]) (fun b' _ => hb ▸ (hs b').cmd) fun b' => ?_⟩
      rw [hb, hcl, (hs b').valid, (hs b').dirty]
    · exact (hg.coherent (by simpa using hf)).frame (fun b' => hb ▸ hs b') hdk (by simp)
        (by simpa using (hg.coherent (by simpa using hf)).reads)
  rcases hcase with ⟨hz, rfl⟩ | ⟨hz, rfl⟩
  · obtain ⟨h₁, h₂, h₃, h₄, h₅, h₆⟩ := hrest { st.setBuf b x with links := (st.links.unlink b).pushFront b }
      rfl rfl rfl rfl rfl rfl
    refine ⟨⟨b :: l.erase b, (hring.unlink (hall b)).pushFront (hring.1.not_mem_erase), fun b' => ?_, ?_⟩,
      h₁, h₂, h₃, h₄, h₅, h₆⟩
    · by_cases hb' : b' = b
      · exact hb' ▸ List.mem_cons_self
      · exact List.mem_cons_of_mem b ((List.mem_erase_of_ne hb').mpr (hall b'))
    · refine List.pairwise_cons.mpr ⟨fun c hc he => ?_, ?_⟩
      · have hcb : c ≠ b := fun e => hring.1.not_mem_erase (e ▸ hc)
        simp only [State.setBuf_bufs, Function.update_self, Function.update_of_ne hcb] at he ⊢
        exact (hlab.unique (hall b) (hall c) (Ne.symm hcb) he).resolve_left hlive
      · refine (hlab.sublist (List.erase_sublist)).imp_of_mem fun {a c} ha hc hac => ?_
        have hab : a ≠ b := fun e => hring.1.not_mem_erase (e ▸ ha)
        have hcb : c ≠ b := fun e => hring.1.not_mem_erase (e ▸ hc)
        simpa [Function.update_of_ne hab, Function.update_of_ne hcb] using hac
  · obtain ⟨h₁, h₂, h₃, h₄, h₅, h₆⟩ := hrest (st.setBuf b x) rfl rfl rfl rfl rfl rfl
    exact ⟨⟨l, hring, hall, hlab.update_same hring.1 (hall b) rfl fun hd => absurd hd hlive⟩,
      h₁, h₂, h₃, h₄, h₅, h₆⟩

lemma Good.pin (hg : Good d₀ st obs) (hc : st.calls p = none) (hlk : (st.bufs b).lock = some p) (d : Block) :
    Good d₀ (st.setBuf b { st.bufs b with data := d, dirty := true })
      (obs ++ [.wrote (st.bufs b).dev (st.bufs b).blockno d]) := by
  obtain ⟨l, hring, hall, hlab⟩ := hg.ring
  have hfree := hg.not_inIderw (.inr ⟨p, hlk, by simp [hc]⟩)
  have hv : (st.bufs b).valid = true := hg.holder b p hlk (by simp [hc])
  have hlive : ¬ Dead (st.bufs b) := fun hd => by simp [hd.2.1] at hv
  set x : Buf := { st.bufs b with data := d, dirty := true }
  have hb : ∀ b', b' ≠ b → Function.update st.bufs b x b' = st.bufs b' := fun b' hb' => Function.update_of_ne hb' _ _
  refine ⟨⟨l, hring, hall, hlab.update_same hring.1 (hall b) rfl fun hd => absurd hd hlive⟩, fun b' => ?_,
    fun b' q hl' hq => ?_, fun q b' hq => ?_, fun b' hd => ?_, ?_, fun hf => ?_⟩
  · by_cases hb' : b' = b
    · subst hb'; simpa [x, holds] using hg.refcnt b'
    · simpa [hb b' hb'] using hg.refcnt b'
  · simp only [State.setBuf_bufs, State.setBuf_calls] at hl' hq ⊢
    by_cases hb' : b' = b
    · subst hb'; simpa [x] using hv
    · rw [hb b' hb'] at hl' ⊢
      exact hg.holder b' q hl' hq
  · simp only [State.setBuf_bufs, State.setBuf_calls] at hq ⊢
    by_cases hb' : b' = b
    · exact absurd (hb' ▸ hq) (hfree q)
    · rw [hb b' hb']
      exact hg.io q b' hq
  · simp only [State.setBuf_bufs] at hd ⊢
    by_cases hb' : b' = b
    · subst hb'; simpa [x] using hv
    · rw [hb b' hb'] at hd ⊢
      exact hg.dirty_valid b' hd
  · obtain ⟨q, hq⟩ := hg.queue
    have hbq : b ∉ q := hq.not_mem hfree
    refine ⟨q, hq.frame rfl rfl rfl (by simp [queuedBufs, doneBufs, Obs.queued?, Obs.done?])
      (fun b' hb' => by simp [hb b' (fun e => hbq (e ▸ hb'))]) fun b' => ?_⟩
    simp only [State.setBuf_bufs, State.setBuf_calls]
    by_cases hb' : b' = b
    · subst hb'; simp [hfree]
    · rw [hb b' hb']
  · exact (hg.coherent hf.of_append).write hlab hall hlive rfl rfl rfl (by simp)

lemma Good.enqueueWrite {st₂ : State} (hg : Good d₀ st obs) (hc : st.calls p = none)
    (hlk : (st.bufs b).lock = some p) (hi : iderw havedisk1 p b st = .ok st₂) :
    Good d₀ (st₂.setCall p (some (.write b))) (obs ++ [.queued b]) := by
  have hfree := hg.not_inIderw (.inr ⟨p, hlk, by simp [hc]⟩)
  obtain ⟨q, hq⟩ := hg.queue
  have hq₂ := hq.enqueue (c := .write b) (o := [.queued b]) hfree (fun b' => by simp [hc]) hi
    (fun b' => by simp [InIderw, eq_comm]) (by simp [queuedBufs, doneBufs, Obs.queued?, Obs.done?])
  obtain ⟨-, -, ctrl, rfl, -, -⟩ := iderw_ok hi
  have hcall : ∀ q b', b' ≠ b → (InIderw (Function.update st.calls p (some (.write b)) q) b' ↔ InIderw (st.calls q) b') := by
    intro q b' hb'
    rw [inIderw_update]
    split_ifs with hq
    · subst hq; simp [InIderw, hc, Ne.symm hb']
    · rfl
  refine ⟨hg.ring, fun b' => ?_, fun b' q hl' hq => ?_, fun q b' hq => ?_, hg.dirty_valid, ⟨_, hq₂⟩, fun hf => ?_⟩
  · have hu := acquirers_update st.calls p (some (.write b)) b'
    rw [hc] at hu
    simp only [State.setCall_bufs, State.setCall_calls]
    rw [hg.refcnt b']
    simp [acquiring] at hu
    omega
  · simp only [State.setCall_bufs, State.setCall_calls] at hl' hq ⊢
    by_cases hb' : b' = b
    · subst hb'
      rw [hlk, Option.some_inj] at hl'
      subst hl'
      simp [InIderw] at hq
    · exact hg.holder b' q hl' fun h => hq ((hcall q b' hb').mpr h)
  · simp only [State.setCall_bufs, State.setCall_calls] at hq ⊢
    by_cases hb' : b' = b
    · subst hb'
      rw [inIderw_update] at hq
      split_ifs at hq with hqp
      · subst hqp; exact hlk
      · exact absurd hq (hfree q)
    · exact hg.io q b' ((hcall q b' hb').mp hq)
  · have hc₀ := hg.coherent hf.of_append
    exact hc₀.frame (fun _ => ⟨rfl, rfl, rfl, rfl, rfl⟩) rfl rfl (hc₀.reads.append_noRead (by simp))

lemma Good.logWrite (hg : Good d₀ st obs) {d : Block} (h : step havedisk1 st (.logWrite p b d) = .ok st' o) :
    Good d₀ st' (obs ++ o) := by
  obtain ⟨hc, hlk, rfl, rfl⟩ := step_logWrite h
  exact hg.pin hc hlk d

lemma Good.bwrite (hg : Good d₀ st obs) {d : Block} (h : step havedisk1 st (.bwrite p b d) = .ok st' o) :
    Good d₀ st' (obs ++ o) := by
  obtain ⟨hc, hlk, st₂, hi, rfl, rfl⟩ := step_bwrite h
  have hp := hg.pin hc hlk d
  rw [show obs ++ [Obs.wrote (st.bufs b).dev (st.bufs b).blockno d, .queued b] =
    obs ++ [.wrote (st.bufs b).dev (st.bufs b).blockno d] ++ [.queued b] by simp]
  exact hp.enqueueWrite hc (by simpa using hlk) hi

lemma Good.intr (hg : Good d₀ st obs) {err : Bool} (h : step havedisk1 st (.intr err) = .ok st' o) :
    Good d₀ st' (obs ++ o) := by
  obtain ⟨c, hc, hi⟩ := step_intr h
  obtain ⟨q, hq⟩ := hg.queue
  obtain ⟨l, hring, hall, hlab⟩ := hg.ring
  rcases ideintr_ok hi with ⟨hn, -, -⟩ | ⟨b, hb, rfl, hcase⟩
  · -- a command runs only for a pending request
    have hq0 : q = [] := by
      have := hq.chain
      rw [show st.idequeue = none from hn] at this
      cases this
      rfl
    rw [hq.ctrl, hq0] at hc
    cases hc
  obtain ⟨q', rfl, hbq', hch'⟩ : ∃ q', q = b :: q' ∧ b ∉ q' ∧ Chain st.qnext (st.qnext b) q' := by
    have := hq.chain
    rw [show st.idequeue = some b from hb] at this
    cases this with
    | cons hb' hch => exact ⟨_, rfl, hb', hch⟩
  have hcb : c = (st.bufs b).cmd := by simpa [hq.ctrl] using hc.symm
  obtain ⟨⟨p, hp⟩, hpend⟩ := (hq.pending b).mp List.mem_cons_self
  have hlk := hg.io p b hp
  have hlive : ¬ Dead (st.bufs b) := fun hd => by simpa [hd.1] using hg.refcnt_pos hlk
  set y : Buf := { st.bufs b with
    data := if !(st.bufs b).dirty && !err then (c.finish st.disk) c.drive c.sector else (st.bufs b).data
    valid := true
    dirty := false }
  have hy : ∀ b', b' ≠ b → Function.update st.bufs b y b' = st.bufs b' := fun b' hb' => Function.update_of_ne hb' _ _
  have hs : ∀ b', (Function.update st.bufs b y b').lock = (st.bufs b').lock ∧
      (Function.update st.bufs b y b').refcnt = (st.bufs b').refcnt ∧
      label (Function.update st.bufs b y b') = label (st.bufs b') := by
    intro b'
    by_cases hb' : b' = b
    · subst hb'; simp [y, label]
    · simp [hy b' hb']
  -- everything but the controller is the same whether or not another request starts
  have hrest : ∀ st₁ : State, st₁.bufs = Function.update st.bufs b y → st₁.calls = st.calls → st₁.links = st.links →
      st₁.disk = c.finish st.disk → st₁.idequeue = st.qnext b → st₁.qnext = st.qnext →
      st₁.ctrl = q'.head?.map (fun b => (st₁.bufs b).cmd) →
      Good d₀ st₁ (obs ++ [.done b (!(st.bufs b).dirty && err)]) := by
    intro st₁ hbufs hcalls hlinks hdisk hid hqn hctrl
    refine ⟨⟨l, hlinks ▸ hring, hall, hbufs ▸ hlab.update_same hring.1 (hall b) (by simp [y, label])
      fun hd => absurd hd hlive⟩, fun b' => ?_, fun b' q hl' hq' => ?_, fun q b' hq' => ?_, fun b' hd => ?_, ?_,
      fun hf => ?_⟩
    · rw [hbufs, hcalls, holds, (hs b').1, (hs b').2.1]
      exact hg.refcnt b'
    · rw [hbufs] at hl' ⊢
      rw [hcalls] at hq'
      by_cases hb' : b' = b
      · subst hb'; simp [y]
      · rw [hy b' hb'] at hl' ⊢
        exact hg.holder b' q hl' hq'
    · rw [hcalls] at hq'
      rw [hbufs, (hs b').1]
      exact hg.io q b' hq'
    · rw [hbufs] at hd ⊢
      by_cases hb' : b' = b
      · subst hb'; simp [y] at hd
      · rw [hy b' hb'] at hd ⊢
        exact hg.dirty_valid b' hd
    · refine ⟨q', hid ▸ hqn ▸ hch', ?_, hctrl, fun b' => ?_⟩
      · rw [doneBufs_append, queuedBufs_append, ← hq.fifo]
        simp [doneBufs, queuedBufs, Obs.done?, Obs.queued?]
      · rw [hbufs, hcalls]
        by_cases hb' : b' = b
        · subst hb'; simp [y, hbq']
        · rw [hy b' hb', ← hq.pending b']
          simp [hb']
    · have hc₀ := hg.coherent hf.of_append
      have hnf : (!(st.bufs b).dirty && err) = false := by
        cases h' : (!(st.bufs b).dirty && err)
        · rfl
        · exact absurd (by rw [← h']; simp) (hf.2 b)
      have hl : latest d₀ (obs ++ [.done b (!(st.bufs b).dirty && err)]) = latest d₀ obs := by
        rw [latest_append]
        rfl
      have hdev := hc₀.devs b
      have hdrive : (st.bufs b).dev % 2 = (st.bufs b).dev := Nat.mod_eq_of_lt hdev
      have hsector : (st.bufs b).blockno * (BSIZE / SECTOR_SIZE) = (st.bufs b).blockno := by
        simp [BSIZE, SECTOR_SIZE]
      -- another buffer with the block of `b` is dead
      have hsame : ∀ b', b' ≠ b → label (st.bufs b') = label (st.bufs b) → (st.bufs b').dirty = false := by
        intro b' hb' he
        rcases hlab.unique (hall b') (hall b) hb' he with hd | hd
        · exact hd.2.2
        · exact absurd hd hlive
      refine ⟨fun b' => ?_, fun b' hv => ?_, fun dv bn h2 hn => ?_, hc₀.reads.append_noRead (by simp)⟩
      · rw [hbufs]
        by_cases hb' : b' = b
        · subst hb'; simpa [y] using hdev
        · rw [hy b' hb']; exact hc₀.devs b'
      · rw [hbufs] at hv ⊢
        rw [hl]
        by_cases hb' : b' = b
        · subst hb'
          cases hd : (st.bufs b').dirty
          · -- a read, which found no error: the sector of the block, which no buffer holds dirty
            have herr : err = false := by simpa [hd] using hnf
            simp only [Function.update_self, y, hd, herr, hcb, Bool.not_false, Bool.and_self, if_true, Buf.cmd,
              Cmd.finish, label, hdrive, hsector]
            refine hc₀.disk _ _ hdev fun b'' he => ?_
            by_cases hb'' : b'' = b'
            · subst hb''; exact hd
            · exact hsame b'' hb'' he
          · -- a write: the buffer keeps its data, which was the latest
            simp only [Function.update_self, y, hd, Bool.not_true, Bool.false_and]
            exact hc₀.cache b' (hg.dirty_valid b' hd)
        · rw [hy b' hb'] at hv ⊢
          exact hc₀.cache b' hv
      · rw [hdisk, hl]
        -- the block a write of `b` put on the disk is the latest of `b`'s block
        have hold : (dv, bn) ≠ label (st.bufs b) ∨ (st.bufs b).dirty = false →
            st.disk dv bn = latest d₀ obs (dv, bn) := by
          intro hne
          refine hc₀.disk dv bn h2 fun b' he => ?_
          by_cases hb' : b' = b
          · subst hb'
            rcases hne with hne | hne
            · exact absurd he.symm hne
            · exact hne
          · have := hn b'
            rw [hbufs, hy b' hb'] at this
            exact this he
        cases hd : (st.bufs b).dirty
        · simp only [hcb, Buf.cmd, hd, Cmd.finish]
          exact hold (.inr hd)
        · simp only [hcb, Buf.cmd, hd, if_true, Cmd.finish, hdrive, hsector]
          by_cases he : (dv, bn) = label (st.bufs b)
          · simp only [label, Prod.mk.injEq] at he
            obtain ⟨rfl, rfl⟩ := he
            simp only [Function.update_self]
            exact hc₀.cache b (hg.dirty_valid b hd)
          · rw [Function.update_apply]
            split_ifs with h₁
            · subst h₁
              rw [Function.update_of_ne (fun e => he (by simp [label, e]))]
              exact hold (.inl he)
            · exact hold (.inl he)
  rcases hcase with ⟨hn, rfl⟩ | ⟨b', hn, -, rfl⟩
  · refine hrest _ ?_ rfl rfl rfl rfl rfl ?_
    · simp [completed_bufs, y]
    · cases q' with
      | nil => rfl
      | cons a q' => rw [hch'.head] at hn; cases hn
  · refine hrest _ ?_ rfl rfl rfl rfl rfl ?_
    · simp [completed_bufs, y]
    · cases q' with
      | nil => rw [hch'.head] at hn; cases hn
      | cons a q' =>
        rw [hch'.head] at hn
        simp only [List.head?_cons, Option.some_inj] at hn
        subst hn
        rfl

theorem Good.step (hg : Good d₀ st obs) {e : Event} (h : step havedisk1 st e = .ok st' o) : Good d₀ st' (obs ++ o) := by
  cases e with
  | bread p dev blockno => exact hg.bread h
  | lock p => exact hg.lock h
  | wake p => exact hg.wake h
  | bwrite p b d => exact hg.bwrite h
  | logWrite p b d => exact hg.logWrite h
  | brelse p b => exact hg.brelse h
  | intr err => exact hg.intr h

theorem good_of_run (h : Run havedisk1 (binit d₀) st obs) : Good d₀ st obs := by
  induction h with
  | init => exact good_binit d₀
  | step _ hs ih => exact ih.step hs

end Steps

/-! ### Blocks change hands only through `bget`'s second loop -/

section Relabel

variable {st st' : State} {o : List Obs} {havedisk1 : Bool}

lemma label_update {bufs : Fin NBUF → Buf} {a b : Fin NBUF} {x : Buf} (h : label x = label (bufs a)) :
    label (Function.update bufs a x b) = label (bufs b) := by
  by_cases hb : b = a
  · subst hb
    rw [Function.update_self, h]
  · rw [Function.update_of_ne hb]

lemma iderw_bufs {p : Fin NPROC} {b : Fin NBUF} (h : iderw havedisk1 p b st = .ok st') : st'.bufs = st.bufs := by
  obtain ⟨-, -, ctrl, rfl, -⟩ := iderw_ok h
  rfl

lemma ideintr_label {err : Bool} {c : Cmd} (h : ideintr err c st = .ok (st', o)) (b : Fin NBUF) :
    label (st'.bufs b) = label (st.bufs b) := by
  rcases ideintr_ok h with ⟨-, rfl, -⟩ | ⟨a, -, -, ⟨-, rfl⟩ | ⟨a', -, -, rfl⟩⟩
  · rfl
  · exact label_update rfl
  · exact label_update rfl

lemma step_relabel {e : Event} (h : step havedisk1 st e = .ok st' o) (b : Fin NBUF)
    (hb : label (st'.bufs b) ≠ label (st.bufs b)) : (st.bufs b).refcnt = 0 ∧ (st.bufs b).dirty = false := by
  -- every other change of a buffer keeps its block
  have keep : ∀ a x, st'.bufs = Function.update st.bufs a x → label x = label (st.bufs a) → False :=
    fun a x he hx => hb (by rw [he]; exact label_update hx)
  cases e with
  | bread p dev blockno =>
    obtain ⟨-, -, a, st₁, hg, rfl⟩ := step_bread h
    rcases bget_ok hg with ⟨-, rfl⟩ | ⟨-, hp, rfl⟩
    · exact (keep a _ rfl rfl).elim
    · by_cases hba : b = a
      · subst hba
        simpa [recyclable] using DLinks.scanPrev_some hp
      · simp [Function.update_of_ne hba] at hb
  | lock p =>
    obtain ⟨a, -, -, ⟨-, rfl, -⟩ | ⟨-, st₂, hi, rfl, -⟩⟩ := step_lock h
    · exact (keep a _ rfl rfl).elim
    · exact (keep a _ (iderw_bufs hi) rfl).elim
  | wake p =>
    obtain ⟨a, -, -, rfl, -⟩ := step_wake h
    exact (hb rfl).elim
  | bwrite p a d =>
    obtain ⟨-, -, st₂, hi, rfl, -⟩ := step_bwrite h
    exact (keep a _ (iderw_bufs hi) rfl).elim
  | logWrite p a d =>
    obtain ⟨-, -, rfl, -⟩ := step_logWrite h
    exact (keep a _ rfl rfl).elim
  | brelse p a =>
    obtain ⟨-, -, -, ⟨-, rfl⟩ | ⟨-, rfl⟩⟩ := step_brelse h
    · exact (keep a _ rfl rfl).elim
    · exact (keep a _ rfl rfl).elim
  | intr err =>
    obtain ⟨c, -, hi⟩ := step_intr h
    exact (hb (ideintr_label hi b)).elim

end Relabel

/-! ### A read the controller failed

`ideintr` sets `B_VALID` on a read even when `idewait(1)` reports an error and `insl` is skipped. -/

section FailedRead

def proc0 : Fin NPROC := ⟨0, by decide⟩

def buf0 : Fin NBUF := ⟨0, by decide⟩

lemma binit_bget (d : ℕ → ℕ → Block) {n : ℕ} (hn : n ≠ 0) : bget (binit d) 0 n = .ok (buf0, (binit d).setBuf buf0
    { (binit d).bufs buf0 with dev := 0, blockno := n, valid := false, dirty := false, refcnt := 1 }) := by
  refine bget_of_recycle ?_ ?_
  · rw [(binit_ring d).scanNext _ (by simp), List.find?_eq_none]
    intro x _
    simp [hasBlock, binit, Ne.symm hn]
  · rw [(binit_ring d).scanPrev _ (by simp), List.reverse_reverse]
    rfl

/-- Process 0 reads block `n` of drive 0 and the controller finishes the read, reporting an error
or not: the buffer is now valid and clean, and holds the disk's block, or after an error still the
zeros `bcache` started with. -/
lemma read_run (d : ℕ → ℕ → Block) (err : Bool) {n : ℕ} (hn : n ≠ 0) (hlt : n < FSSIZE) :
    ∃ st, Run false (binit d) st [.get proc0 0 n, .queued buf0, .done buf0 err] ∧ st.calls proc0 = some (.read buf0) ∧
      (st.bufs buf0).valid = true ∧ (st.bufs buf0).dirty = false ∧
      (st.bufs buf0).data = (if err then fun _ => 0 else d 0 n) ∧
      (st.bufs buf0).dev = 0 ∧ (st.bufs buf0).blockno = n ∧ st.disk = d := by
  -- `bread`: buffer 0 is recycled for block `n`
  have h₁ : step false (binit d) (.bread proc0 0 n) = _ := step_bread_of_ok rfl (binit_bget d hn)
  set st₁ := ((binit d).setBuf buf0
    { (binit d).bufs buf0 with dev := 0, blockno := n, valid := false, dirty := false, refcnt := 1 }).setCall proc0
    (some (.acquire buf0)) with hst₁
  -- `acquiresleep` returns and `iderw` queues the read, which starts the controller
  have hi : iderw false proc0 buf0 (st₁.setBuf buf0 { st₁.bufs buf0 with lock := some proc0 }) = .ok _ :=
    iderw_of (by simp [st₁]) (by simp [st₁]) (.inl (by simp [st₁])) (by simpa [st₁] using hlt)
  have h₂ : step false st₁ (.lock proc0) = _ := step_lock_of_read (by simp [st₁]) (by simp [st₁, binit]) (by simp [st₁]) hi
  -- `ideintr` marks the buffer valid, with the disk's data only when there was no error
  have r := ((Run.init.step h₁).step h₂).step (e := .intr err) (step_intr_of rfl (ideintr_of_last rfl rfl))
  refine ⟨_, by simpa [st₁] using r, ?_⟩
  cases err
  · simp [binit, Buf.cmd, Cmd.finish, BSIZE, SECTOR_SIZE]
  · simp [binit, Buf.cmd, Cmd.finish]

lemma failed_read (d : ℕ → ℕ → Block) {n : ℕ} (hn : n ≠ 0) (hlt : n < FSSIZE) :
    ∃ st, Run false (binit d) st [.get proc0 0 n, .queued buf0, .done buf0 true] ∧ st.calls proc0 = some (.read buf0) ∧
      (st.bufs buf0).valid = true ∧ (st.bufs buf0).dirty = false ∧ (st.bufs buf0).data = (fun _ => 0) ∧
      (st.bufs buf0).dev = 0 ∧ (st.bufs buf0).blockno = n ∧ st.disk = d := by
  simpa using read_run d true hn hlt

end FailedRead

/-! ### What the cache promises -/

/-- A buffer someone refers to, or that holds a block. -/
def Live (x : Buf) : Prop := 0 < x.refcnt ∨ x.valid = true ∨ x.dirty = true

lemma Dead.not_live {x : Buf} (h : Dead x) : ¬ Live x := by
  obtain ⟨h₁, h₂, h₃⟩ := h
  simp [Live, h₁, h₂, h₃]

/-- The list through `bcache.head` holds each buffer once; two live buffers hold different
blocks; a step moves a buffer to another block only if it had no reference and was not dirty;
and when every read found the controller without error and named drive 0 or 1, every `bread`
returned what was last written to its block. -/
structure BcacheCoherent (havedisk1 : Bool) (d₀ : ℕ → ℕ → Block) (st : State) (obs : List Obs) : Prop where
  ring : ∃ l, st.links.Ring l ∧ ∀ b, b ∈ l
  unique : ∀ b c, b ≠ c → Live (st.bufs b) → Live (st.bufs c) → label (st.bufs b) ≠ label (st.bufs c)
  relabel : ∀ e st' o, step havedisk1 st e = .ok st' o → ∀ b, label (st'.bufs b) ≠ label (st.bufs b) →
    (st.bufs b).refcnt = 0 ∧ (st.bufs b).dirty = false
  reads : NoFault obs → ReadsLatest d₀ obs

theorem bcache_coherent {havedisk1 : Bool} {d₀ : ℕ → ℕ → Block} {st : State} {obs : List Obs}
    (h : Run havedisk1 (binit d₀) st obs) : BcacheCoherent havedisk1 d₀ st obs := by
  have hg := good_of_run h
  obtain ⟨l, hring, hall, hlab⟩ := hg.ring
  refine ⟨⟨l, hring, hall⟩, fun b c hbc hb hc he => ?_, fun e st' o hs b hb => step_relabel hs b hb,
    fun hf => (hg.coherent hf).reads⟩
  rcases hlab.unique (hall b) (hall c) hbc he with hd | hd
  · exact hd.not_live hb
  · exact hd.not_live hc

/-- Process 0 reads block 1 of a disk of ones and gets it back, the controller finishing without an
error. -/
lemma clean_read_run : ∃ st obs, Run false (binit fun _ _ _ => 1) st obs ∧ NoFault obs ∧
    Obs.read proc0 0 1 (fun _ => 1) ∈ obs := by
  obtain ⟨st, hr, hc, hv, hd, hdata, hdev, hbn, -⟩ := read_run (fun _ _ _ => 1) false one_ne_zero (by decide)
  refine ⟨_, _, hr.step (step_wake_of_read hc hv hd), ⟨fun p dev blockno h => ?_, fun b h => ?_⟩, ?_⟩
  · simp only [List.cons_append, List.nil_append, List.mem_cons, Obs.get.injEq, reduceCtorEq, List.not_mem_nil,
      or_false] at h
    omega
  · simp at h
  · rw [hdata, hdev, hbn]
    simp

theorem bcache_coherent_read : ∃ st obs, Run false (binit fun _ _ _ => 1) st obs ∧ NoFault obs ∧
    BcacheCoherent false (fun _ _ _ => 1) st obs := by
  obtain ⟨st, obs, hr, hnf, -⟩ := clean_read_run
  exact ⟨st, obs, hr, hnf, bcache_coherent hr⟩

/-- On a disk whose blocks hold ones, a `bread` after a failed read returns zeros. -/
theorem bread_stale_after_failed_read :
    ∃ st obs, Run false (binit fun _ _ _ => 1) st obs ∧ ¬ ReadsLatest (fun _ _ _ => 1) obs := by
  obtain ⟨st, hr, hc, hv, hd, hdata, hdev, hbn, -⟩ := failed_read (fun _ _ _ => 1) one_ne_zero (by decide)
  refine ⟨_, _, hr.step (step_wake_of_read hc hv hd), fun h => ?_⟩
  have he := h [.get proc0 0 1, .queued buf0, .done buf0 true] proc0 _ _ _ [] rfl
  -- nothing was written, so the latest contents of the block are the disk's ones
  have hl : latest (fun _ _ _ => 1) [.get proc0 0 1, .queued buf0, .done buf0 true] (0, 1) = fun _ => 1 := rfl
  rw [hdata, hdev, hbn, hl] at he
  have h0 := congrFun he ⟨0, by decide⟩
  simp at h0

/-! ### The disk queue -/

section Queue

variable {d₀ : ℕ → ℕ → Block} {st st' : State} {obs o : List Obs} {havedisk1 : Bool}

lemma bget_calls {dev blockno : ℕ} {b : Fin NBUF} (h : bget st dev blockno = .ok (b, st')) : st'.calls = st.calls := by
  rcases bget_ok h with ⟨-, rfl⟩ | ⟨-, -, rfl⟩ <;> rfl

lemma iderw_calls {p : Fin NPROC} {b : Fin NBUF} (h : iderw havedisk1 p b st = .ok st') : st'.calls = st.calls := by
  obtain ⟨-, -, ctrl, rfl, -⟩ := iderw_ok h
  rfl

lemma ideintr_calls {err : Bool} {c : Cmd} (h : ideintr err c st = .ok (st', o)) : st'.calls = st.calls := by
  rcases ideintr_ok h with ⟨-, rfl, -⟩ | ⟨a, -, -, ⟨-, rfl⟩ | ⟨a', -, -, rfl⟩⟩ <;> rfl

lemma step_queued {e : Event} (h : step havedisk1 st e = .ok st' o)
    (hq : ∀ p b, InIderw (st.calls p) b → b ∈ queuedBufs obs) (p : Fin NPROC) (b : Fin NBUF)
    (hp : InIderw (st'.calls p) b) : b ∈ queuedBufs (obs ++ o) := by
  have old : InIderw (st.calls p) b → b ∈ queuedBufs (obs ++ o) := fun h' => by simp [hq p b h']
  -- a process that now sleeps elsewhere, or not at all, is the one that stepped
  have other : ∀ p₀ c, st'.calls = Function.update st.calls p₀ c → (InIderw c b → b ∈ queuedBufs o) →
      b ∈ queuedBufs (obs ++ o) := by
    intro p₀ c he hc
    rw [he, inIderw_update] at hp
    split_ifs at hp
    · simp [hc hp]
    · exact old hp
  cases e with
  | bread p₀ dev blockno =>
    obtain ⟨-, -, a, st₁, hg, rfl⟩ := step_bread h
    exact other p₀ (some (.acquire a)) (by simp [bget_calls hg]) (by simp)
  | lock p₀ =>
    obtain ⟨a, -, -, ⟨-, rfl, -⟩ | ⟨-, st₂, hi, rfl, rfl⟩⟩ := step_lock h
    · exact other p₀ none rfl (by simp)
    · refine other p₀ (some (.read a)) (by simp [iderw_calls hi]) fun hc => ?_
      rcases hc with hc | hc <;> simp_all [queuedBufs, Obs.queued?]
  | wake p₀ =>
    obtain ⟨a, -, -, rfl, -⟩ := step_wake h
    exact other p₀ none rfl (by simp)
  | bwrite p₀ a d =>
    obtain ⟨-, -, st₂, hi, rfl, rfl⟩ := step_bwrite h
    refine other p₀ (some (.write a)) (by simp [iderw_calls hi]) fun hc => ?_
    rcases hc with hc | hc <;> simp_all [queuedBufs, Obs.queued?]
  | logWrite p₀ a d =>
    obtain ⟨-, -, rfl, -⟩ := step_logWrite h
    exact old hp
  | brelse p₀ a =>
    obtain ⟨-, -, -, ⟨-, rfl⟩ | ⟨-, rfl⟩⟩ := step_brelse h <;> exact old hp
  | intr err =>
    obtain ⟨c, -, hi⟩ := step_intr h
    exact old (by simpa [ideintr_calls hi] using hp)

lemma queued_of_run (h : Run havedisk1 (binit d₀) st obs) (p : Fin NPROC) (b : Fin NBUF)
    (hp : InIderw (st.calls p) b) : b ∈ queuedBufs obs := by
  induction h generalizing p b with
  | init => simp [binit] at hp
  | step _ hs ih => exact step_queued hs ih p b hp

end Queue

/-- The disk queue along a run: `idequeue` runs without repetition through the requests not yet
finished, the controller runs the first, requests finish in the order they were queued, and a
process leaves `iderw` only when every request of its buffer has finished and the buffer is valid
and clean; with no fault, it then holds what the disk holds at its block. -/
structure DiskOrder (havedisk1 : Bool) (st : State) (obs : List Obs) : Prop where
  queue : ∃ q, q.Nodup ∧ Chain st.qnext st.idequeue q ∧ st.ctrl = q.head?.map (fun b => (st.bufs b).cmd) ∧
    doneBufs obs ++ q = queuedBufs obs
  wake : ∀ p b st' o, step havedisk1 st (.wake p) = .ok st' o → InIderw (st.calls p) b →
    b ∈ doneBufs obs ∧ (doneBufs obs).count b = (queuedBufs obs).count b ∧
    (st.bufs b).valid = true ∧ (st.bufs b).dirty = false ∧
    (NoFault obs → (st.bufs b).data = st.disk (st.bufs b).dev (st.bufs b).blockno)

lemma wake_done {havedisk1 : Bool} {st st' : State} {o : List Obs} {p : Fin NPROC} {b : Fin NBUF}
    (h : step havedisk1 st (.wake p) = .ok st' o) (hp : InIderw (st.calls p) b) :
    (st.bufs b).valid = true ∧ (st.bufs b).dirty = false := by
  obtain ⟨a, hv, hd, -, hc⟩ := step_wake h
  have hab : a = b := by
    rcases hc with ⟨hc, -⟩ | ⟨hc, -⟩ <;> rcases hp with hp | hp <;> simp_all
  exact hab ▸ ⟨hv, hd⟩

lemma Good.data_eq_disk {d₀ : ℕ → ℕ → Block} {st : State} {obs : List Obs} {b : Fin NBUF} {p : Fin NPROC}
    (hg : Good d₀ st obs) (hf : NoFault obs) (hl : (st.bufs b).lock = some p) (hv : (st.bufs b).valid = true)
    (hd : (st.bufs b).dirty = false) : (st.bufs b).data = st.disk (st.bufs b).dev (st.bufs b).blockno := by
  have hc := hg.coherent hf
  obtain ⟨l, -, hall, hlab⟩ := hg.ring
  have hlive : ¬ Dead (st.bufs b) := fun h => (hg.refcnt_pos hl).ne' h.1
  -- another buffer with the block of `b` is dead, so not dirty
  refine (hc.cache b hv).trans (hc.disk _ _ (hc.devs b) fun b' he => ?_).symm
  by_cases hb' : b' = b
  · exact hb' ▸ hd
  · rcases hlab.unique (hall b') (hall b) hb' he with h | h
    · exact h.2.2
    · exact absurd h hlive

theorem iderw_queue_order {havedisk1 : Bool} {d₀ : ℕ → ℕ → Block} {st : State} {obs : List Obs}
    (h : Run havedisk1 (binit d₀) st obs) : DiskOrder havedisk1 st obs := by
  have hg : Good d₀ st obs := good_of_run h
  obtain ⟨q, hq⟩ := hg.queue
  refine ⟨⟨q, hq.chain.nodup, hq.chain, hq.ctrl, hq.fifo⟩, fun p b st' o hs hp => ?_⟩
  obtain ⟨hv, hd⟩ := wake_done hs hp
  have hbq : b ∉ q := fun hb => ((hq.pending b).mp hb).2 ⟨hv, hd⟩
  have hcount : (doneBufs obs).count b = (queuedBufs obs).count b := by
    rw [← hq.fifo, List.count_append, List.count_eq_zero_of_not_mem hbq, Nat.add_zero]
  have hmem : b ∈ doneBufs obs := by
    rw [← List.count_pos_iff, hcount, List.count_pos_iff]
    exact queued_of_run h p b hp
  exact ⟨hmem, hcount, hv, hd, fun hf => hg.data_eq_disk hf (hg.io p b hp) hv hd⟩

theorem iderw_queue_order_read : ∃ st obs, Run false (binit fun _ _ _ => 1) st obs ∧ DiskOrder false st obs := by
  obtain ⟨st, obs, hr, -⟩ := clean_read_run
  exact ⟨st, obs, hr, iderw_queue_order hr⟩

/-- After a failed read, `iderw` lets its caller go with data the disk does not hold. -/
theorem iderw_wakes_on_failed_read :
    ∃ st obs, Run false (binit fun _ _ _ => 1) st obs ∧ (∃ st' o, step false st (.wake proc0) = .ok st' o) ∧
      InIderw (st.calls proc0) buf0 ∧ (st.bufs buf0).data ≠ st.disk (st.bufs buf0).dev (st.bufs buf0).blockno := by
  obtain ⟨st, hr, hc, hv, hd, hdata, hdev, hbn, hdisk⟩ := failed_read (fun _ _ _ => 1) one_ne_zero (by decide)
  refine ⟨st, _, hr, ⟨_, _, step_wake_of_read hc hv hd⟩, .inl hc, fun he => ?_⟩
  rw [hdata, hdisk, hdev, hbn] at he
  have h0 := congrFun he ⟨0, by decide⟩
  simp at h0

end Xv6Net.Fs.BioInv
