import Xv6Mount.Log.Absorb
import Xv6Mount.Infra.Count
import Mathlib.Data.Fintype.Basic

/-!
# transaction の protocol（`begin_op`・`end_op`・`commit` の交互の実行）

各 process は FS 操作を `begin_op` で始め、`log_write` を何度か呼び、`end_op` で終える。
`end_op` は二つの lock 区間に分かれる。一つ目で `outstanding` を減らし、どちらも 0 なら
`committing` を立てる。lock を外して `commit` を走らせ、二つ目で `committing` を下ろす。
`commit` の間、他の process の `begin_op` は sleep する。

ここでは process ごとに、操作の外（`idle`）、操作の中（`inOp`）、commit 中（`committing`）の
三つの段階を持たせ、段の列で到達できる状態を考える。

* `endOp_eq_enter_leave` — `end_op` は、一つ目の lock 区間、`commit`、二つ目の lock 区間を
  続けて回したものである
* `TxInv` — 二つの log の `outstanding` は等しく、操作の中の process の数である。
  `committing` も等しく、立っているのはちょうど一つの process が commit 中のときである
* `loopdevWrite_of_zero` — `outstanding` が 0 で入った `loopdev_write` は、0 に戻して返るか、
  root log があふれて panic する
* `log_counters_lockstep` — 到達できるどの状態でも不変条件が成り立ち、"log_write outside of
  trans" と "[loopdev_write] trick failed" の panic は起きない

## `loopdev_write` の中

`loopdev_write` は `log.outstanding` だけを 1 増やして root log に `log_write` し、戻す。
二つの `outstanding` がずれるのはこの中だけで、それは一つの `commit` の段の中に閉じている。
-/

namespace Xv6

open Infra Finset

/-! ## `end_op` の二つの lock 区間 -/

/--
`end_op` の一つ目の lock 区間。二つの `outstanding` を減らし、どちらも 0 なら二つの
`committing` を立てる。返す `Bool` は `do_commit`。
-/
def endOpEnter (s : LogSys) : Except Stop (LogSys × Bool) :=
  let s1 := { s with log := s.log.addOutstanding (-1), loop_log := s.loop_log.addOutstanding (-1) }
  if s1.log.committing || s1.loop_log.committing then .error (.panic "log is committing")
  else if s1.log.outstanding = 0 ∧ s1.loop_log.outstanding = 0 then .ok (s1.setCommitting true, true)
  else .ok (s1, false)

/-- `end_op` の二つ目の lock 区間。`commit` の後で二つの `committing` を下ろす。 -/
def endOpLeave (s : LogSys) : LogSys := s.setCommitting false

/-- **`end_op` は二つの lock 区間と、その間の `commit` である。** -/
theorem endOp_eq_enter_leave (imgBlocks : Nat → List Nat) (s : LogSys) :
    endOp imgBlocks s = (endOpEnter s).bind fun r =>
      if r.2 then (commit imgBlocks r.1).map fun c => (endOpLeave c.1, c.2) else .ok (r.1, []) := by
  unfold endOp endOpEnter
  dsimp only
  split
  · rfl
  · split <;> rfl

/-! ## counters を動かす段 -/

theorem beginOp_eq_ok {s s' : LogSys} (h : beginOp s = .ok s') :
    s.log.committing = false ∧
    s' = { s with log := s.log.addOutstanding 1, loop_log := s.loop_log.addOutstanding 1 } := by
  unfold beginOp at h
  split at h
  · cases h
  · rename_i hc
    split at h
    · cases h
    · cases h
      simp only [Bool.or_eq_true, not_or] at hc
      exact ⟨by simpa using hc.1, rfl⟩

theorem endOpEnter_eq_ok {s s' : LogSys} {c : Bool} (h : endOpEnter s = .ok (s', c)) :
    s.log.committing = false ∧ s.loop_log.committing = false ∧
    let s1 := { s with log := s.log.addOutstanding (-1), loop_log := s.loop_log.addOutstanding (-1) }
    ((c = true ∧ s1.log.outstanding = 0 ∧ s1.loop_log.outstanding = 0 ∧ s' = s1.setCommitting true) ∨
      (c = false ∧ ¬(s1.log.outstanding = 0 ∧ s1.loop_log.outstanding = 0) ∧ s' = s1)) := by
  unfold endOpEnter at h
  dsimp only at h
  split at h
  · cases h
  · rename_i hc
    simp only [Bool.or_eq_true, not_or, Bool.not_eq_true] at hc
    refine ⟨hc.1, hc.2, ?_⟩
    split at h
    · rename_i h0
      cases h
      exact .inl ⟨rfl, h0.1, h0.2, rfl⟩
    · rename_i h0
      cases h
      exact .inr ⟨rfl, h0, rfl⟩

/-- `log_write` は counters を変えない。 -/
theorem logWrite_counters {s s' : LogSys} {dev blockno : Nat} (h : logWrite s dev blockno = .ok s')
    (loop : Bool) : (s'.logFor loop).outstanding = (s.logFor loop).outstanding ∧
      (s'.logFor loop).committing = (s.logFor loop).committing := by
  rw [(logWrite_eq_ok h).2.2 loop]
  split <;> exact ⟨rfl, rfl⟩

/-! ## `loopdev_write` -/

section loopdev

variable {imgBlocks : Nat → List Nat}

/-- root disk への `log_write` の列は、root log の header だけを変える。 -/
theorem runList_logWrite_root {s s' : LogSys} {bs : List Nat}
    (h : runList (fun s b => logWrite s ROOTDEV b) s bs = .ok s') :
    s'.log.outstanding = s.log.outstanding ∧ s'.log.committing = s.log.committing ∧
    s'.loop_log = s.loop_log ∧ s'.is_loop_mounted = s.is_loop_mounted := by
  refine runList_inv (fun t => t.log.outstanding = s.log.outstanding ∧ t.log.committing = s.log.committing ∧
    t.loop_log = s.loop_log ∧ t.is_loop_mounted = s.is_loop_mounted) ?_ bs ⟨rfl, rfl, rfl, rfl⟩ h
  rintro t b t' ⟨h₁, h₂, h₃, h₄⟩ hw
  obtain ⟨-, hm, hlog⟩ := logWrite_eq_ok hw
  have hroot := logWrite_counters hw false
  have hloop : t'.loop_log = t.loop_log := by simpa [isloopdev_ROOTDEV] using hlog true
  exact ⟨hroot.1.trans h₁, hroot.2.trans h₂, hloop.trans h₃, hm.trans h₄⟩

/-- `outstanding` が 1 以上の log への `log_write` は、"too big a transaction" でしか止まらない。 -/
theorem logWriteTo_error {l : Log} {blockno : Nat} {e : Stop} (h1 : 1 ≤ l.outstanding)
    (h : logWriteTo l blockno = .error e) : e = .panic "too big a transaction" := by
  unfold logWriteTo at h
  split at h
  · cases h
    rfl
  · split at h
    · rename_i ho
      exact absurd h1 (by simpa using ho)
    · cases h

/-- `isloopdev dev` の log の `outstanding` が 1 以上なら、`log_write` は "too big a transaction" でしか
止まらない。 -/
theorem logWrite_error {s : LogSys} {dev blockno : Nat} {e : Stop}
    (h1 : 1 ≤ (s.logFor (isloopdev dev)).outstanding) (h : logWrite s dev blockno = .error e) :
    e = .panic "too big a transaction" := by
  unfold logWrite at h
  cases hd : isloopdev dev with
  | false =>
    rw [hd] at h h1
    cases hw : logWriteTo s.log blockno with
    | ok l => rw [hw] at h; cases h
    | error e' =>
      rw [hw] at h
      cases h
      exact logWriteTo_error h1 hw
  | true =>
    rw [hd] at h h1
    cases hw : logWriteTo s.loop_log blockno with
    | ok l => rw [hw] at h; cases h
    | error e' =>
      rw [hw] at h
      cases h
      exact logWriteTo_error h1 hw

/-- `outstanding` が 1 以上なら、root disk への `log_write` の列は "too big a transaction" でしか止まらない。 -/
theorem runList_logWrite_root_error {s : LogSys} {bs : List Nat} {e : Stop}
    (h1 : 1 ≤ s.log.outstanding) (h : runList (fun s b => logWrite s ROOTDEV b) s bs = .error e) :
    e = .panic "too big a transaction" := by
  refine runList_error_inv (fun t : LogSys => 1 ≤ t.log.outstanding)
    (fun e => e = .panic "too big a transaction") ?_ ?_ bs h1 h
  · intro t b t' ht hw
    have ho : t'.log.outstanding = t.log.outstanding := (logWrite_counters hw false).1
    rw [ho]
    exact ht
  · intro t b e ht hw
    exact logWrite_error (by rw [isloopdev_ROOTDEV]; exact ht) hw

/-- 成功した `loopdev_write` は `log.outstanding` を 0 にして返り、`loop_log` を変えない。 -/
theorem loopdevWrite_eq_ok {s s' : LogSys} {blockno : Nat} (h : loopdevWrite imgBlocks s blockno = .ok s') :
    s'.log.outstanding = 0 ∧ s'.log.committing = s.log.committing ∧ s'.loop_log = s.loop_log ∧
    s'.is_loop_mounted = s.is_loop_mounted := by
  unfold loopdevWrite at h
  obtain ⟨s₂, hr, h⟩ := bind_eq_ok.mp h
  obtain ⟨-, hc, hl, hm⟩ := runList_logWrite_root hr
  dsimp only at h
  split at h
  · cases h
  · rename_i h0
    cases h
    exact ⟨by simpa using h0, hc, hl, hm⟩

/--
**`outstanding` が 0 で入った `loopdev_write`。** root log の `log_write` は `outstanding = 1` の
下で走るので "log_write outside of trans" にならず、戻した `outstanding` は 0 なので
"[loopdev_write] trick failed" にもならない。止まるのは root log があふれたときだけである。
-/
theorem loopdevWrite_of_zero {s : LogSys} (h0 : s.log.outstanding = 0) (blockno : Nat) :
    (∃ s', loopdevWrite imgBlocks s blockno = .ok s') ∨
      loopdevWrite imgBlocks s blockno = .error (.panic "too big a transaction") := by
  unfold loopdevWrite
  dsimp only
  cases hr : runList (fun s b => logWrite s ROOTDEV b)
      { s with log := s.log.addOutstanding 1 } (imgBlocks blockno) with
  | error e =>
    right
    rw [runList_logWrite_root_error (by simp [Log.addOutstanding, h0]) hr]
    rfl
  | ok s₂ =>
    left
    obtain ⟨ho, -⟩ := runList_logWrite_root hr
    -- `log_write` は `outstanding` を変えないので、戻すと 0 である
    have h2 : s₂.log.outstanding + -1 = 0 := by
      rw [ho]
      simp [Log.addOutstanding, h0]
    simp [Log.addOutstanding, h2]

/-- `outstanding` が 0 のまま、`loopdev_write` の列を回す。各 `loopdev_write` は 0 で入る。 -/
theorem runList_loopdevWrite_zero {s s' : LogSys} {bs : List Nat} (h0 : s.log.outstanding = 0)
    (h : runList (loopdevWrite imgBlocks) s bs = .ok s') :
    s'.log.outstanding = 0 ∧ s'.log.committing = s.log.committing ∧ s'.loop_log = s.loop_log ∧
    s'.is_loop_mounted = s.is_loop_mounted := by
  refine runList_inv (fun t => t.log.outstanding = 0 ∧ t.log.committing = s.log.committing ∧
    t.loop_log = s.loop_log ∧ t.is_loop_mounted = s.is_loop_mounted) ?_ bs ⟨h0, rfl, rfl, rfl⟩ h
  rintro t b t' ⟨-, h₂, h₃, h₄⟩ hw
  obtain ⟨h₁', h₂', h₃', h₄'⟩ := loopdevWrite_eq_ok hw
  exact ⟨h₁', h₂'.trans h₂, h₃'.trans h₃, h₄'.trans h₄⟩

theorem runList_loopdevWrite_error {s : LogSys} {bs : List Nat} {e : Stop} (h0 : s.log.outstanding = 0)
    (h : runList (loopdevWrite imgBlocks) s bs = .error e) : e = .panic "too big a transaction" := by
  refine runList_error_inv (fun t : LogSys => t.log.outstanding = 0)
    (fun e => e = .panic "too big a transaction") ?_ ?_ bs h0 h
  · intro t b t' _ hw
    exact (loopdevWrite_eq_ok hw).1
  · intro t b e ht hw
    rcases @loopdevWrite_of_zero imgBlocks t ht b with ⟨t', ht'⟩ | hp
    · rw [ht'] at hw
      cases hw
    · rw [hp] at hw
      cases hw
      rfl

end loopdev

/-! ## `commit` -/

section commit

variable {imgBlocks : Nat → List Nat}

/-- `outstanding` が 0 で入った `commit` は、counters を変えない。 -/
theorem commit_counters {s s' : LogSys} {w : List (Nat × Nat)} (h0 : s.log.outstanding = 0)
    (h : commit imgBlocks s = .ok (s', w)) :
    s'.log.outstanding = 0 ∧ s'.loop_log.outstanding = s.loop_log.outstanding ∧
    s'.log.committing = s.log.committing ∧ s'.loop_log.committing = s.loop_log.committing := by
  unfold commit at h
  dsimp only at h
  split at h
  · obtain ⟨s₁, hr, h⟩ := bind_eq_ok.mp h
    obtain ⟨h₁, h₂, h₃, -⟩ := runList_loopdevWrite_zero h0 hr
    split at h
    · cases h
    · cases h
      exact ⟨h₁, by rw [h₃]; rfl, h₂, by rw [h₃]; rfl⟩
  · rw [ok_bind] at h
    split at h
    · cases h
    · cases h
      exact ⟨h0, rfl, rfl, rfl⟩

/-- `outstanding` が 0 で入った `commit` が止まるのは、root log があふれたときか、loop_log を書いて
root log が空のときだけである。 -/
theorem commit_error {s : LogSys} {e : Stop} (h0 : s.log.outstanding = 0)
    (h : commit imgBlocks s = .error e) :
    e = .panic "too big a transaction" ∨ e = .panic "[commit] loop_log is written but log is not written!" := by
  unfold commit at h
  dsimp only at h
  split at h
  · cases hr : runList (loopdevWrite imgBlocks) s (commitBlocks s.loop_log) with
    | error e' =>
      rw [hr] at h
      cases h
      exact .inl (runList_loopdevWrite_error h0 hr)
    | ok s₁ =>
      rw [hr, ok_bind] at h
      split at h
      · cases h
        exact .inr rfl
      · cases h
  · rw [ok_bind] at h
    split at h
    · cases h
      exact .inr rfl
    · cases h

end commit

/-! ## process ごとの段階 -/

/-- FS 操作から見た process の段階。 -/
inductive Phase where
  /-- 操作の外 -/
  | idle
  /-- `begin_op` と `end_op` の間 -/
  | inOp
  /-- `end_op` が `committing` を立て、lock を外して `commit` している -/
  | committing
deriving DecidableEq, Repr

/-- 操作の中なら 1。 -/
def Phase.weight : Phase → Nat
  | .inOp => 1
  | _ => 0

/-- log 層と、各 process の段階。 -/
structure TxSys where
  log : LogSys
  phase : Fin NPROC → Phase

/-- 操作の中にいる process の数。 -/
def inOpCount (phase : Fin NPROC → Phase) : Nat := ∑ p, (phase p).weight

/-- 一つの process の段階を変えると、数はその分だけ変わる。 -/
theorem inOpCount_update (phase : Fin NPROC → Phase) (p : Fin NPROC) (q : Phase) :
    inOpCount (Function.update phase p q) + (phase p).weight = inOpCount phase + q.weight := by
  have h : ∑ x, (Function.update phase p q x).weight + (phase p).weight =
      ∑ x, (phase x).weight + (Function.update phase p q p).weight :=
    sum_frame univ Phase.weight (mem_univ p) fun x hx => Function.update_of_ne hx _ _
  simpa [inOpCount] using h

/--
段。各 process は自分の段階に合った呼び出しだけをする。`begin_op` が sleep する間と、
panic で止まった後は、段がない。
-/
inductive TxStep (imgBlocks : Nat → List Nat) : TxSys → TxSys → Prop
  | beginOp {s : TxSys} {l : LogSys} (p : Fin NPROC) : s.phase p = .idle → beginOp s.log = .ok l →
      TxStep imgBlocks s ⟨l, Function.update s.phase p .inOp⟩
  | logWrite {s : TxSys} {l : LogSys} (p : Fin NPROC) (dev blockno : Nat) : s.phase p = .inOp →
      logWrite s.log dev blockno = .ok l → TxStep imgBlocks s ⟨l, s.phase⟩
  | setLoopMounted {s : TxSys} (p : Fin NPROC) (v : Bool) : s.phase p = .inOp →
      TxStep imgBlocks s ⟨{ s.log with is_loop_mounted := v }, s.phase⟩
  | endOpEnter {s : TxSys} {l : LogSys} {c : Bool} (p : Fin NPROC) : s.phase p = .inOp →
      endOpEnter s.log = .ok (l, c) →
      TxStep imgBlocks s ⟨l, Function.update s.phase p (if c then .committing else .idle)⟩
  | commit {s : TxSys} {l : LogSys} {w : List (Nat × Nat)} (p : Fin NPROC) :
      s.phase p = .committing → commit imgBlocks s.log = .ok (l, w) →
      TxStep imgBlocks s ⟨endOpLeave l, Function.update s.phase p .idle⟩

/-- `initlog` の直後で、どの process も操作の外にいる。 -/
def TxInit (s : TxSys) : Prop :=
  ∃ dev logstart nlog, s = ⟨initlog dev logstart nlog, fun _ => .idle⟩

/-- 到達できる状態。 -/
def TxReach (imgBlocks : Nat → List Nat) : TxSys → Prop := Reach TxInit (TxStep imgBlocks)

/-! ## 不変条件 -/

/--
counters の不変条件。二つの `outstanding` は等しく、操作の中の process の数である。
二つの `committing` は等しく、立っているのは commit 中の process がいるときで、それは一つだけで、
そのとき操作の中の process はいない。
-/
structure TxInv (s : TxSys) : Prop where
  lockstep : s.log.log.outstanding = s.log.loop_log.outstanding
  count : s.log.log.outstanding = inOpCount s.phase
  committing_eq : s.log.log.committing = s.log.loop_log.committing
  committing_iff : s.log.log.committing = true ↔ ∃ p, s.phase p = .committing
  committer_unique : ∀ p q, s.phase p = .committing → s.phase q = .committing → p = q
  none_inOp : s.log.log.committing = true → inOpCount s.phase = 0

theorem txInv_init {s : TxSys} (h : TxInit s) : TxInv s := by
  obtain ⟨dev, logstart, nlog, rfl⟩ := h
  exact {
    lockstep := rfl
    count := by simp [inOpCount, initlog, Phase.weight]
    committing_eq := rfl
    committing_iff := by simp [initlog]
    committer_unique := fun _ _ h _ => by cases h
    none_inOp := fun h => by simp [initlog] at h }

section inv

variable {s : TxSys}

/-- 操作の中の process がいれば、`outstanding` は正である。 -/
theorem TxInv.outstanding_pos (hs : TxInv s) {p : Fin NPROC} (hin : s.phase p = .inOp) :
    0 < s.log.log.outstanding := by
  have h := inOpCount_update s.phase p .idle
  rw [hin] at h
  simp only [Phase.weight] at h
  rw [hs.count]
  omega

/-- 操作の中の process がいれば、`committing` は立っていない。 -/
theorem TxInv.not_committing (hs : TxInv s) {p : Fin NPROC} (hin : s.phase p = .inOp) :
    s.log.log.committing = false := by
  cases hc : s.log.log.committing
  · rfl
  · have := hs.outstanding_pos hin
    rw [hs.count, hs.none_inOp hc] at this
    exact absurd this (lt_irrefl 0)

/-- commit 中の process がいれば、二つの `outstanding` は 0 である。 -/
theorem TxInv.zero_of_committing (hs : TxInv s) {p : Fin NPROC} (hc : s.phase p = .committing) :
    s.log.log.outstanding = 0 ∧ s.log.loop_log.outstanding = 0 := by
  have h0 : s.log.log.outstanding = 0 := by
    rw [hs.count, hs.none_inOp (hs.committing_iff.mpr ⟨p, hc⟩)]
    rfl
  exact ⟨h0, hs.lockstep ▸ h0⟩

/-- `committing` が下りていれば、commit 中の process はいない。 -/
theorem TxInv.no_committer (hs : TxInv s) (hc : s.log.log.committing = false) :
    ∀ q, s.phase q ≠ .committing := fun q hq => by
  rw [hs.committing_iff.mpr ⟨q, hq⟩] at hc
  cases hc

/--
commit 中でないときに二つの `outstanding` を同じだけ動かす段は、後の段階に commit 中の process が
おらず、`outstanding` が操作の中の process の数に合えば、不変条件を保つ。
-/
theorem TxInv.addOutstanding (hs : TxInv s) {d : Int} {ph : Fin NPROC → Phase}
    (hc : s.log.log.committing = false) (hnc : ∀ q, ph q ≠ .committing)
    (hcount : s.log.log.outstanding + d = inOpCount ph) :
    TxInv ⟨{ s.log with log := s.log.log.addOutstanding d, loop_log := s.log.loop_log.addOutstanding d }, ph⟩ where
  lockstep := by
    show s.log.log.outstanding + d = s.log.loop_log.outstanding + d
    rw [hs.lockstep]
  count := hcount
  committing_eq := hs.committing_eq
  committing_iff := by
    show s.log.log.committing = true ↔ ∃ p, ph p = .committing
    rw [hc]
    constructor
    · intro h
      cases h
    · rintro ⟨q, hq⟩
      exact absurd hq (hnc q)
  committer_unique := fun q _ hq _ => absurd hq (hnc q)
  none_inOp := fun h' => by cases h'.symm.trans hc

end inv

/-- commit 中の process がいないとき、一つを commit 以外の段階に書き換えても、commit 中の process はいない。 -/
theorem update_ne_committing {ph : Fin NPROC → Phase} (hnc : ∀ q, ph q ≠ .committing) {p : Fin NPROC}
    {x : Phase} (hx : x ≠ .committing) : ∀ q, Function.update ph p x q ≠ .committing := by
  intro q
  by_cases hqp : q = p
  · subst hqp
    rw [Function.update_self]
    exact hx
  · rw [Function.update_of_ne hqp]
    exact hnc q

section step

variable {imgBlocks : Nat → List Nat} {s : TxSys}

theorem TxInv.beginOp (hs : TxInv s) {l : LogSys} {p : Fin NPROC} (hidle : s.phase p = .idle)
    (h : Xv6.beginOp s.log = .ok l) : TxInv ⟨l, Function.update s.phase p .inOp⟩ := by
  obtain ⟨hc, rfl⟩ := beginOp_eq_ok h
  have hcnt := inOpCount_update s.phase p .inOp
  rw [hidle] at hcnt
  simp only [Phase.weight] at hcnt
  refine hs.addOutstanding hc (update_ne_committing (hs.no_committer hc) Phase.noConfusion) ?_
  rw [hs.count]
  omega

/-- counters と段階を変えない段は、不変条件を保つ。 -/
theorem TxInv.of_counters (hs : TxInv s) {s' : TxSys} (hph : s'.phase = s.phase)
    (h₁ : s'.log.log.outstanding = s.log.log.outstanding)
    (h₂ : s'.log.loop_log.outstanding = s.log.loop_log.outstanding)
    (h₃ : s'.log.log.committing = s.log.log.committing)
    (h₄ : s'.log.loop_log.committing = s.log.loop_log.committing) : TxInv s' where
  lockstep := by rw [h₁, h₂, hs.lockstep]
  count := by rw [h₁, hph, hs.count]
  committing_eq := by rw [h₃, h₄, hs.committing_eq]
  committing_iff := by rw [h₃, hph, hs.committing_iff]
  committer_unique := hph ▸ hs.committer_unique
  none_inOp := by rw [h₃, hph]; exact hs.none_inOp

theorem TxInv.endOpEnter (hs : TxInv s) {l : LogSys} {c : Bool} {p : Fin NPROC}
    (hin : s.phase p = .inOp) (h : Xv6.endOpEnter s.log = .ok (l, c)) :
    TxInv ⟨l, Function.update s.phase p (if c then .committing else .idle)⟩ := by
  obtain ⟨hc, -, hcase⟩ := endOpEnter_eq_ok h
  have hnc := hs.no_committer hc
  have hcount := hs.count
  rcases hcase with ⟨rfl, h₁, h₂, rfl⟩ | ⟨rfl, -, rfl⟩
  · -- 最後の操作：`committing` を立てて `p` が commit する
    show TxInv ⟨_, Function.update s.phase p .committing⟩
    have hcnt := inOpCount_update s.phase p .committing
    rw [hin] at hcnt
    simp only [Phase.weight] at hcnt
    simp only [Log.addOutstanding] at h₁ h₂
    have hother : ∀ q, Function.update s.phase p .committing q = .committing → q = p := by
      intro q hq
      by_contra hqp
      simp only [Function.update_of_ne hqp] at hq
      exact hnc q hq
    exact {
      lockstep := by simp only [LogSys.setCommitting, Log.addOutstanding]; rw [h₁, h₂]
      count := by
        simp only [LogSys.setCommitting, Log.addOutstanding]
        rw [h₁]
        omega
      committing_eq := rfl
      committing_iff := by simpa [LogSys.setCommitting] using ⟨p, Function.update_self p _ s.phase⟩
      committer_unique := fun q r hq hr => (hother q hq).trans (hother r hr).symm
      none_inOp := fun _ => show inOpCount (Function.update s.phase p .committing) = 0 by omega }
  · -- まだ操作の中の process がいる：`p` が外に出るだけ
    show TxInv ⟨_, Function.update s.phase p .idle⟩
    have hcnt := inOpCount_update s.phase p .idle
    rw [hin] at hcnt
    simp only [Phase.weight] at hcnt
    refine hs.addOutstanding hc (update_ne_committing hnc Phase.noConfusion) ?_
    omega

theorem TxInv.commit (hs : TxInv s) {l : LogSys} {w : List (Nat × Nat)} {p : Fin NPROC}
    (hcp : s.phase p = .committing) (h : Xv6.commit imgBlocks s.log = .ok (l, w)) :
    TxInv ⟨endOpLeave l, Function.update s.phase p .idle⟩ := by
  obtain ⟨h0, h0'⟩ := hs.zero_of_committing hcp
  obtain ⟨h₁, h₂, -, -⟩ := commit_counters h0 h
  have hcnt := inOpCount_update s.phase p .idle
  rw [hcp] at hcnt
  simp only [Phase.weight] at hcnt
  -- commit 中だったのは `p` だけなので、もう commit 中の process はいない
  have hnc : ∀ q, Function.update s.phase p .idle q ≠ .committing := by
    intro q hq
    by_cases hqp : q = p
    · subst hqp
      simp at hq
    · simp only [Function.update_of_ne hqp] at hq
      exact hqp (hs.committer_unique q p hq hcp)
  exact {
    lockstep := by simp only [endOpLeave, LogSys.setCommitting]; rw [h₁, h₂, h0']
    count := by
      simp only [endOpLeave, LogSys.setCommitting]
      rw [h₁]
      have := hs.count
      omega
    committing_eq := rfl
    committing_iff := by simpa [endOpLeave, LogSys.setCommitting] using hnc
    committer_unique := fun q _ hq _ => absurd hq (hnc q)
    none_inOp := fun h' => by simp [endOpLeave, LogSys.setCommitting] at h' }

/-- **各段は不変条件を保つ。** -/
theorem TxInv.step (hs : TxInv s) {s' : TxSys} (h : TxStep imgBlocks s s') : TxInv s' := by
  cases h with
  | beginOp p hidle hb => exact hs.beginOp hidle hb
  | logWrite p dev blockno _ hw =>
    have hr := logWrite_counters hw false
    have hl := logWrite_counters hw true
    exact hs.of_counters rfl hr.1 hl.1 hr.2 hl.2
  | setLoopMounted p v _ => exact hs.of_counters rfl rfl rfl rfl rfl
  | endOpEnter p hin he => exact hs.endOpEnter hin he
  | commit p hcp hc => exact hs.commit hcp hc

end step

theorem txInv_of_reach {imgBlocks : Nat → List Nat} {s : TxSys} (h : TxReach imgBlocks s) : TxInv s :=
  Reach.rec_inv TxInv (fun _ => txInv_init) (fun _ _ hs hst => hs.step hst) h

/-! ## 起きない panic -/

/-- `committing` が立っていれば、`begin_op` は sleep する。 -/
theorem beginOp_of_committing {l : LogSys} (hc : l.log.committing = true) : beginOp l = .error .sleep := by
  simp [beginOp, hc]

/-- どちらの `committing` も立っていなければ、`end_op` の一つ目の lock 区間は止まらない。 -/
theorem endOpEnter_ok {l : LogSys} (hc : l.log.committing = false) (hc' : l.loop_log.committing = false) :
    ∃ r, endOpEnter l = .ok r := by
  unfold endOpEnter
  simp only [Log.addOutstanding, hc, hc', Bool.or_false, Bool.false_eq_true, if_false]
  split
  · exact ⟨_, rfl⟩
  · exact ⟨_, rfl⟩

/--
**transaction の counters は揃って動く。** 到達できるどの状態でも、二つの `outstanding` は
等しく 0 以上で、二つの `committing` も等しい。`committing` が立っていれば `outstanding` は 0 で、
`begin_op` は通らない。操作の中の process の `log_write` は "log_write outside of trans" で止まらず、
`end_op` は "log is committing" で止まらない。commit 中の process がいれば二つの `outstanding` は 0 で、
`commit` が各 `loopdev_write` に入るとき `log.outstanding` は 0 であり、`commit` は
"[loopdev_write] trick failed" でも "log_write outside of trans" でも止まらない。
-/
theorem log_counters_lockstep (imgBlocks : Nat → List Nat) {s : TxSys} (hs : TxReach imgBlocks s) :
    s.log.log.outstanding = s.log.loop_log.outstanding ∧ 0 ≤ s.log.log.outstanding ∧
    s.log.log.committing = s.log.loop_log.committing ∧
    (s.log.log.committing = true → s.log.log.outstanding = 0 ∧ beginOp s.log = .error .sleep) ∧
    (∀ p, s.phase p = .inOp → ∀ dev blockno,
      logWrite s.log dev blockno ≠ .error (.panic "log_write outside of trans") ∧
      endOpEnter s.log ≠ .error (.panic "log is committing")) ∧
    (∀ p, s.phase p = .committing →
      s.log.log.outstanding = 0 ∧ s.log.loop_log.outstanding = 0 ∧
      (∀ k s₁, runList (loopdevWrite imgBlocks) s.log ((commitBlocks s.log.loop_log).take k) = .ok s₁ →
        s₁.log.outstanding = 0 ∧ s₁.loop_log.outstanding = 0) ∧
      ∀ e, commit imgBlocks s.log = .error e →
        e ≠ .panic "[loopdev_write] trick failed" ∧ e ≠ .panic "log_write outside of trans") := by
  have hi := txInv_of_reach hs
  refine ⟨hi.lockstep, by rw [hi.count]; exact Int.natCast_nonneg _, hi.committing_eq, fun hc => ?_,
    fun p hin dev blockno => ?_, fun p hcp => ?_⟩
  · -- commit 中：操作の中の process はいない
    exact ⟨by rw [hi.count, hi.none_inOp hc]; rfl, beginOp_of_committing hc⟩
  · -- 操作の中：二つの `outstanding` は 1 以上で、`committing` は立っていない
    have hpos := hi.outstanding_pos hin
    have hc := hi.not_committing hin
    have hc' : s.log.loop_log.committing = false := hi.committing_eq ▸ hc
    have h1 : 1 ≤ (s.log.logFor (isloopdev dev)).outstanding := by
      cases isloopdev dev
      · simp only [LogSys.logFor_false]
        omega
      · simp only [LogSys.logFor_true, ← hi.lockstep]
        omega
    refine ⟨fun h => ?_, fun h => ?_⟩
    · exact absurd (logWrite_error h1 h) (by decide)
    · obtain ⟨r, hr⟩ := endOpEnter_ok hc hc'
      rw [hr] at h
      cases h
  · obtain ⟨h0, h0'⟩ := hi.zero_of_committing hcp
    refine ⟨h0, h0', fun k s₁ hr => ?_, fun e he => ?_⟩
    · obtain ⟨h₁, -, h₃, -⟩ := runList_loopdevWrite_zero h0 hr
      exact ⟨h₁, by rw [h₃, h0']⟩
    · rcases commit_error h0 he with rfl | rfl <;> exact ⟨by decide, by decide⟩

/--
`mkfs` の root disk を `initlog` し、process 0 と 1 が `begin_op` して root disk の block 100 と 101 を
`log_write` し、0 が `end_op` を抜け、最後の 1 が commit に入った状態。
-/
theorem log_counters_lockstep_at_commit :
    ∃ s, TxReach (fun _ => []) s ∧ s.phase ⟨1, by decide⟩ = .committing ∧
    (s.log.log.outstanding = s.log.loop_log.outstanding ∧ 0 ≤ s.log.log.outstanding ∧
    s.log.log.committing = s.log.loop_log.committing ∧
    (s.log.log.committing = true → s.log.log.outstanding = 0 ∧ beginOp s.log = .error .sleep) ∧
    (∀ p, s.phase p = .inOp → ∀ dev blockno,
      logWrite s.log dev blockno ≠ .error (.panic "log_write outside of trans") ∧
      endOpEnter s.log ≠ .error (.panic "log is committing")) ∧
    (∀ p, s.phase p = .committing →
      s.log.log.outstanding = 0 ∧ s.log.loop_log.outstanding = 0 ∧
      (∀ k s₁, runList (loopdevWrite fun _ => []) s.log ((commitBlocks s.log.loop_log).take k) = .ok s₁ →
        s₁.log.outstanding = 0 ∧ s₁.loop_log.outstanding = 0) ∧
      ∀ e, commit (fun _ => []) s.log = .error e →
        e ≠ .panic "[loopdev_write] trick failed" ∧ e ≠ .panic "log_write outside of trans")) := by
  obtain ⟨l₁, l₂, l₃, l₄, l₅, l₆, h₁, h₂, h₃, h₄, h₅, h₆⟩ : ∃ l₁ l₂ l₃ l₄ l₅ l₆,
      beginOp (initlog ROOTDEV 2 LOGSIZE) = .ok l₁ ∧ beginOp l₁ = .ok l₂ ∧
      logWrite l₂ ROOTDEV 100 = .ok l₃ ∧ logWrite l₃ ROOTDEV 101 = .ok l₄ ∧
      endOpEnter l₄ = .ok (l₅, false) ∧ endOpEnter l₅ = .ok (l₆, true) :=
    ⟨_, _, _, _, _, _, rfl, rfl, rfl, rfl, rfl, rfl⟩
  -- 段ごとの `phase` は `Function.update` を評価すれば決まる
  have r₀ : TxReach (fun _ => []) ⟨initlog ROOTDEV 2 LOGSIZE, fun _ => .idle⟩ :=
    Reach.init ⟨ROOTDEV, 2, LOGSIZE, rfl⟩
  have r₂ := Reach.step (Reach.step r₀ (TxStep.beginOp ⟨0, by decide⟩ rfl h₁))
    (TxStep.beginOp ⟨1, by decide⟩ rfl h₂)
  have r₄ := Reach.step (Reach.step r₂ (TxStep.logWrite ⟨0, by decide⟩ ROOTDEV 100 rfl h₃))
    (TxStep.logWrite ⟨1, by decide⟩ ROOTDEV 101 rfl h₄)
  have r₆ := Reach.step (Reach.step r₄ (TxStep.endOpEnter ⟨0, by decide⟩ rfl h₅))
    (TxStep.endOpEnter ⟨1, by decide⟩ rfl h₆)
  exact ⟨_, r₆, rfl, log_counters_lockstep (fun _ => []) r₆⟩

end Xv6
