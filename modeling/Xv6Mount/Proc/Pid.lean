import Xv6Mount.Proc.Proc

/-!
# pid の割り当て

`unshare(PID_NS)` は子のための pid namespace を `next_pid = 1` で作り、続く `fork` は
その namespace の `next_pid` を子の `pids[0]` に入れる。したがって `unshare` の後の最初の子は、
新しい namespace で pid 1 を持つ（`first_child_after_unshare_has_pid_1`）。

pid が namespace の中で重ならないのは、同じ entry が作り直されない間だけである。
pid namespace の `count` はその namespace を自分の namespace とする process と、それを
`child_pid_namespace` に持つ process しか数えない。祖先の namespace でだけ pid を持つ
process が残っていても、`count` が 0 になった entry は `create_new_pid_namespace` が
`next_pid = 1` で作り直す（`pid_reused_after_namespace_freed`）。

作り直された entry の親は、作り直した process の namespace である。それが元の entry の子孫なら、
親をたどる鎖は輪になる。`set_up_pids` は親をたどって段を使い切り、`fork` は
"fork: There are too many nested pid_namespaces!" で panic する（`fork_panics_on_parent_cycle`、
`namespace_cycle_after_reuse`）。

`unshare` は nsproxy を作り直した後で `PID_NS` の要求を調べ、`child_pid_namespace` がすでにあれば
"pid_namespace already unshared\n" で panic する。-1 を返す道はない。二度目の `unshare(PID_NS)` は
決して戻らない（`unshare_twice_panics`）。
-/

namespace Xv6

open Infra

/-! ## 表の上の操作 -/

/-- `create_new_pid_namespace` は `count == 0` の entry を `next_pid = 1` で作り直す。 -/
theorem create_new_pid_namespace_spec {t t' : NsTables} {parent : Option Nat} {c : Nat}
    (h : create_new_pid_namespace t parent = .ok (t', c)) :
    c < NNAMESPACE ∧ (t.pid_namespaces c).count = 0 ∧ (t'.pid_namespaces c).next_pid = 1 ∧
      (t'.pid_namespaces c).parent = parent := by
  unfold create_new_pid_namespace at h
  split at h
  · rename_i i hi
    cases h
    have hp := List.find?_some hi
    simp only [beq_iff_eq] at hp
    exact ⟨List.mem_range.mp (List.mem_of_find?_eq_some hi), hp, by simp, by simp⟩
  · cases h

/-- 既にある pid namespace を指す `create_nsproxy` は、どの namespace の `next_pid` も変えない。 -/
theorem create_nsproxy_next_pid {t t' : NsTables} {p j : Nat}
    (h : create_nsproxy t (some p) = .ok (t', j)) (i : Nat) :
    (t'.pid_namespaces i).next_pid = (t.pid_namespaces i).next_pid := by
  unfold create_nsproxy at h
  split at h
  · cases h
    by_cases hi : i = p
    · subst hi; simp [increase_pid_namespace_count]
    · simp [increase_pid_namespace_count, hi]
  · cases h

/-- `allocproc` は `UNUSED` の slot を取る。namespace の表と各 process の `child_pid_namespace` は変えない。 -/
theorem allocproc_spec {s s' : ProcSys} {np : Nat} (h : allocproc s = some (s', np)) :
    np < NPROC ∧ (s.proc np).state = .UNUSED ∧ s'.ns = s.ns ∧
      ∀ q, (s'.proc q).child_pid_namespace = (s.proc q).child_pid_namespace := by
  unfold allocproc at h
  split at h
  · rename_i p hp
    cases h
    have hu := List.find?_some hp
    simp only [beq_iff_eq] at hu
    refine ⟨List.mem_range.mp (List.mem_of_find?_eq_some hp), hu, rfl, fun q => ?_⟩
    by_cases hq : q = np
    · subst hq; simp
    · simp [hq]
  · cases h

/-- 子の `parent` を書いても、どの slot の `child_pid_namespace` も変わらない。 -/
theorem modify_parent_child_pid_namespace (s : ProcSys) (np : Nat) (x : Option Nat) (p : Nat) :
    ((s.modify np fun q => { q with parent := x }).proc p).child_pid_namespace =
      (s.proc p).child_pid_namespace := by
  by_cases hp : p = np
  · subst hp
    simp
  · simp [hp]

/-- `pids[0]` の namespace の pid は `pids[0]` の pid である。 -/
theorem get_namespace_pid_of_pids_zero {p : Proc} {ns : Option Nat} (h : (p.pids 0).pid_ns = ns) :
    get_namespace_pid p ns = (p.pids 0).pid := by
  simp [get_namespace_pid, PID_NAMESPACE_MAX_DEPTH, List.range_succ_eq_map, h]

/-! ## `fork` が子に入れる pid -/

section fork

variable {s s' : ProcSys} {cur np : Nat}

/-- 子の namespace を用意しても、子の `parent` と `pids` は変わらない。用意済みならそれを返す。 -/
theorem set_up_child_pid_namespace_some {c : Nat} {r : Option Nat}
    (hc : (s.proc cur).child_pid_namespace = some c)
    (h : set_up_child_pid_namespace s cur np = .ok (s', r)) :
    r = some c ∧ (s'.proc np).parent = (s.proc np).parent ∧ (s'.proc np).pids = (s.proc np).pids ∧
      ∀ i, (s'.ns.pid_namespaces i).next_pid = (s.ns.pid_namespaces i).next_pid := by
  unfold set_up_child_pid_namespace at h
  rw [hc] at h
  obtain ⟨⟨t, j⟩, ht, h⟩ := bind_eq_ok.mp h
  cases h
  exact ⟨rfl, by simp, by simp, create_nsproxy_next_pid ht⟩

/-- `set_up_pids` の loop は、`i` 段目より前の `pids` と `parent` を変えない。 -/
theorem setUpPidsLoop_frame :
    ∀ {k i : Nat} {ns : Option Nat} {s s' : ProcSys}, setUpPidsLoop np k i ns s = .ok s' →
    (∀ j < i, (s'.proc np).pids j = (s.proc np).pids j) ∧ (s'.proc np).parent = (s.proc np).parent
  | k, _, none, _, _, h => by cases k <;> simp [setUpPidsLoop] at h
  | 0, _, some _, _, _, h => by simp [setUpPidsLoop] at h
  | k + 1, i, some ns, s, s', h => by
    simp only [setUpPidsLoop] at h
    split at h
    · cases h
      refine ⟨fun j hj => ?_, by simp⟩
      simp [Function.update_of_ne (Nat.ne_of_lt hj)]
    · obtain ⟨hpids, hpar⟩ := setUpPidsLoop_frame h
      refine ⟨fun j hj => ?_, by rw [hpar]; simp⟩
      rw [hpids j (by omega)]
      simp [Function.update_of_ne (Nat.ne_of_lt hj)]

/-- `set_up_pids` の loop は `i` 段目に、namespace `ns` の `next_pid` を入れる。 -/
theorem setUpPidsLoop_pids {k i ns : Nat} (h : setUpPidsLoop np (k + 1) i (some ns) s = .ok s') :
    (s'.proc np).pids i = ⟨some ns, (s.ns.pid_namespaces ns).next_pid⟩ ∧
      (s'.proc np).parent = (s.proc np).parent := by
  simp only [setUpPidsLoop] at h
  split at h
  · cases h
    simp [alloc_new_pid]
  · obtain ⟨hpids, hpar⟩ := setUpPidsLoop_frame h
    rw [hpids i (by omega), hpar]
    simp [alloc_new_pid]

/--
**`fork` が子に入れる pid。** 親が子のための namespace `c` を用意していれば、slot が空いている
限り、子は `c` でその時の `next_pid` を pid に持つ。
-/
theorem fork_child_pid {c : Nat} {pid : Int} (hc : (s.proc cur).child_pid_namespace = some c)
    (h : fork s cur = .ok (s', pid)) :
    allocproc s = none ∨ ∃ np, np < NPROC ∧ (s.proc np).state = .UNUSED ∧
      (s'.proc np).parent = some cur ∧
      get_namespace_pid (s'.proc np) (some c) = (s.ns.pid_namespaces c).next_pid := by
  unfold fork at h
  cases ha : allocproc s with
  | none => exact .inl rfl
  | some a =>
    obtain ⟨s₁, np⟩ := a
    obtain ⟨hnp, hu, hns, hch⟩ := allocproc_spec ha
    simp only [ha] at h
    obtain ⟨⟨s₂, r⟩, h₂, h⟩ := bind_eq_ok.mp h
    -- 親の `child_pid_namespace` は `allocproc` と `parent` の設定で変わらない
    have hc₁ : ((s₁.modify np fun q => { q with parent := some cur }).proc cur).child_pid_namespace =
        some c := by
      rw [modify_parent_child_pid_namespace, hch, hc]
    obtain ⟨rfl, hpar₂, -, hnext⟩ := set_up_child_pid_namespace_some hc₁ h₂
    obtain ⟨s₃, h₃, h⟩ := bind_eq_ok.mp h
    obtain ⟨hpid0, hpar₃⟩ := setUpPidsLoop_pids h₃
    cases h
    refine .inr ⟨np, hnp, hu, ?_, ?_⟩
    · simp [hpar₃, hpar₂]
    · rw [get_namespace_pid_of_pids_zero (by simp [hpid0])]
      simp [hpid0, hnext, hns]

/-- `allocproc` は slot の `state` と `pid` しか書かず、`killed` に触れない。 -/
theorem allocproc_killed (h : allocproc s = some (s', np)) (q : Nat) :
    (s'.proc q).killed = (s.proc q).killed := by
  unfold allocproc at h
  split at h
  · cases h
    dsimp only
    exact ProcSys.modify_killed (by intro _; rfl) q
  · cases h

/-- 子の namespace の用意は子の `nsproxy` しか書かない。 -/
theorem set_up_child_pid_namespace_killed {r : Option Nat}
    (h : set_up_child_pid_namespace s cur np = .ok (s', r)) (q : Nat) :
    (s'.proc q).killed = (s.proc q).killed := by
  unfold set_up_child_pid_namespace at h
  split at h
  · obtain ⟨⟨t, j⟩, -, h⟩ := bind_eq_ok.mp h
    cases h
    dsimp only
    exact ProcSys.modify_killed (by intro _; rfl) q
  · split at h
    · cases h
      exact ProcSys.modify_killed (by intro _; rfl) q
    · cases h

/-- `set_up_pids` の loop は子の `pids` しか書かない。 -/
theorem setUpPidsLoop_killed :
    ∀ {k i : Nat} {ns : Option Nat} {s s' : ProcSys}, setUpPidsLoop np k i ns s = .ok s' →
    ∀ q, (s'.proc q).killed = (s.proc q).killed
  | k, _, none, _, _, h => by cases k <;> simp [setUpPidsLoop] at h
  | 0, _, some _, _, _, h => by simp [setUpPidsLoop] at h
  | k + 1, i, some ns, s, s', h => by
    simp only [setUpPidsLoop] at h
    intro q
    split at h
    · cases h
      dsimp only
      exact ProcSys.modify_killed (by intro _; rfl) q
    · rw [setUpPidsLoop_killed h q]
      dsimp only
      exact ProcSys.modify_killed (by intro _; rfl) q

/--
**`fork` はどの slot の `killed` も変えない。** 子は、`allocproc` が取った `UNUSED` の slot の
`killed` をそのまま持つ。
-/
theorem fork_killed {r : Int} (h : fork s cur = .ok (s', r)) (q : Nat) :
    (s'.proc q).killed = (s.proc q).killed := by
  unfold fork at h
  cases ha : allocproc s with
  | none =>
    simp only [ha, pure_eq_ok, Except.ok.injEq, Prod.mk.injEq] at h
    rw [← h.1]
  | some a =>
    obtain ⟨s₁, np⟩ := a
    simp only [ha] at h
    obtain ⟨⟨s₂, c⟩, h₂, h⟩ := bind_eq_ok.mp h
    obtain ⟨s₃, h₃, h⟩ := bind_eq_ok.mp h
    cases h
    -- 子の `state`・`pid`・`parent` を書く `modify` は `killed` に触れない
    rw [ProcSys.modify_killed (by intro _; rfl), ProcSys.modify_killed (by intro _; rfl),
      setUpPidsLoop_killed (show setUpPidsLoop np PID_NAMESPACE_MAX_DEPTH 0 c s₂ = .ok s₃ from h₃) q,
      set_up_child_pid_namespace_killed h₂ q, ProcSys.modify_killed (by intro _; rfl), allocproc_killed ha q]

end fork

/-! ## `unshare` の後の最初の子 -/

/-- `unsharePidNs` の形。子の namespace を持たない `cur` に、新しい pid namespace `c` を持たせる。 -/
theorem unsharePidNs_eq_ok {s s' : ProcSys} {cur : Nat} (h : unsharePidNs s cur = .ok s') :
    ∃ ns c t, (s.proc cur).child_pid_namespace = none ∧
      create_new_pid_namespace s.ns (some ns) = .ok (t, c) ∧
      s' = { s.modify cur (fun q => { q with child_pid_namespace := some c }) with ns := t } := by
  unfold unsharePidNs at h
  by_cases hch : (s.proc cur).child_pid_namespace = none
  · simp only [hch, ne_eq, not_true_eq_false, if_false] at h
    cases hp : pidNsOf s cur with
    | none => simp [hp] at h
    | some ns =>
      simp only [hp] at h
      by_cases hd : check_is_pid_namespace_legal (s.ns.pid_namespaces ns) = false
      · simp [hd] at h
      simp only [hd] at h
      obtain ⟨⟨t, c⟩, hc, h⟩ := bind_eq_ok.mp h
      cases h
      exact ⟨ns, c, t, hch, hc, rfl⟩
  · simp [hch] at h

/--
`unshare` の形。`cur` の nsproxy `old` と同じ pid namespace を指す nsproxy `j` を作って `cur` に持たせ、
`old` を放す。`PID_NS` なら続けて `unsharePidNs` を走らせる。
-/
theorem unshare_eq_ok {s s' : ProcSys} {cur : Nat} {flags r : Int} (h : unshare s cur flags = .ok (s', r)) :
    ∃ old j t t₂, (s.proc cur).nsproxy = some old ∧
      create_nsproxy s.ns (s.ns.nsproxy old).pid_ns = .ok (t, j) ∧ put_nsproxy t old = .ok t₂ ∧
      (Int.land flags PID_NS > 0 ∧
          unsharePidNs { s.modify cur (fun q => { q with nsproxy := some j }) with ns := t₂ } cur = .ok s' ∨
        ¬ Int.land flags PID_NS > 0 ∧
          s' = { s.modify cur (fun q => { q with nsproxy := some j }) with ns := t₂ }) := by
  unfold unshare at h
  cases hn : (s.proc cur).nsproxy with
  | none => simp [hn] at h
  | some old =>
    simp only [hn] at h
    by_cases hc : (s.ns.nsproxy old).count < 1
    · simp [hc] at h
    rw [if_neg hc] at h
    obtain ⟨⟨t, j⟩, ht, h⟩ := bind_eq_ok.mp h
    obtain ⟨t₂, ht₂, h⟩ := bind_eq_ok.mp h
    refine ⟨old, j, t, t₂, rfl, ht, ht₂, ?_⟩
    split at h
    · rename_i hf
      obtain ⟨s₃, h₃, h⟩ := bind_eq_ok.mp h
      cases h
      exact .inl ⟨hf, h₃⟩
    · rename_i hf
      cases h
      exact .inr ⟨hf, rfl⟩

/-- `unsharePidNs` は、子のための namespace を `next_pid = 1` で用意する。 -/
theorem unsharePidNs_spec {s s' : ProcSys} {cur : Nat} (h : unsharePidNs s cur = .ok s') :
    ∃ c, (s'.proc cur).child_pid_namespace = some c ∧ (s'.ns.pid_namespaces c).next_pid = 1 := by
  obtain ⟨_, c, t, -, hc, rfl⟩ := unsharePidNs_eq_ok h
  exact ⟨c, by simp, (create_new_pid_namespace_spec hc).2.2.1⟩

/-- `unshare(PID_NS)` は、子のための namespace を `next_pid = 1` で用意する。 -/
theorem unshare_pid_ns {s s' : ProcSys} {cur : Nat} {flags r : Int}
    (h : unshare s cur flags = .ok (s', r)) (hf : Int.land flags PID_NS > 0) :
    ∃ c, (s'.proc cur).child_pid_namespace = some c ∧ (s'.ns.pid_namespaces c).next_pid = 1 := by
  obtain ⟨_, _, _, _, -, -, -, ⟨-, h₃⟩ | ⟨hf', -⟩⟩ := unshare_eq_ok h
  · exact unsharePidNs_spec h₃
  · exact absurd hf hf'

/--
**`unshare(PID_NS)` の後の最初の子は、新しい namespace で pid 1 を持つ。** slot が空いていれば、
続く `fork` の子は親の用意した namespace `c` で pid 1 である。
-/
theorem first_child_after_unshare_has_pid_1 {s s₁ s₂ : ProcSys} {cur : Nat} {flags r pid : Int}
    (hu : unshare s cur flags = .ok (s₁, r)) (hf : Int.land flags PID_NS > 0)
    (hk : fork s₁ cur = .ok (s₂, pid)) :
    allocproc s₁ = none ∨ ∃ c np, (s₁.proc cur).child_pid_namespace = some c ∧ np < NPROC ∧
      (s₂.proc np).parent = some cur ∧ get_namespace_pid (s₂.proc np) (some c) = 1 := by
  obtain ⟨c, hc, h1⟩ := unshare_pid_ns hu hf
  rcases fork_child_pid hc hk with ha | ⟨np, hnp, -, hpar, hpid⟩
  · exact .inl ha
  · exact .inr ⟨c, np, hc, hnp, hpar, hpid.trans h1⟩

/-- 起動した kernel で init process が `unshare(PID_NS)` して `fork` すると、子は新しい namespace で pid 1。 -/
theorem first_child_pid_1_at_boot :
    ∃ s s₁ s₂ r pid, userinit ProcSys.zero = .ok s ∧ unshare s 0 1 = .ok (s₁, r) ∧
      Int.land 1 PID_NS > 0 ∧ fork s₁ 0 = .ok (s₂, pid) ∧
      (allocproc s₁ = none ∨ ∃ c np, (s₁.proc 0).child_pid_namespace = some c ∧ np < NPROC ∧
        (s₂.proc np).parent = some 0 ∧ get_namespace_pid (s₂.proc np) (some c) = 1) := by
  obtain ⟨s, s₁, s₂, r, pid, h₀, hu, hk⟩ : ∃ s s₁ s₂ r pid, userinit ProcSys.zero = .ok s ∧
      unshare s 0 1 = .ok (s₁, r) ∧ fork s₁ 0 = .ok (s₂, pid) := ⟨_, _, _, _, _, rfl, rfl, rfl⟩
  exact ⟨s, s₁, s₂, r, pid, h₀, hu, by decide, hk, first_child_after_unshare_has_pid_1 hu (by decide) hk⟩

/-! ## 二度目の `unshare(PID_NS)` -/

/-- `child_pid_namespace` を持つ process の `unsharePidNs` は panic する。 -/
theorem unsharePidNs_of_unshared {s : ProcSys} {cur : Nat}
    (hc : (s.proc cur).child_pid_namespace ≠ none) :
    unsharePidNs s cur = .error (.panic "pid_namespace already unshared\n") := by
  unfold unsharePidNs
  simp [hc]

/-- `unshare(PID_NS)` は、`unshare(0)` と同じ nsproxy の作り直しの後に `unsharePidNs` を走らせる。 -/
theorem unshare_of_pid_ns {s : ProcSys} {cur : Nat} {flags : Int} (hf : Int.land flags PID_NS > 0) :
    unshare s cur flags = (do
      let p ← unshare s cur 0
      let s' ← unsharePidNs p.1 cur
      pure (s', 0)) := by
  unfold unshare
  cases (s.proc cur).nsproxy with
  | none => rfl
  | some old =>
    dsimp only
    -- `split` は `count < 1` で分け、`hf` で `PID_NS` の分岐を選ぶ
    split
    · rfl
    cases create_nsproxy s.ns (s.ns.nsproxy old).pid_ns with
    | error e => rfl
    | ok a =>
      simp only [ok_bind]
      cases put_nsproxy _ old with
      | error e => rfl
      | ok t =>
        have h0 : ¬ Int.land 0 PID_NS > 0 := by decide
        simp [h0]

/-- `unshare(0)` は `child_pid_namespace` を変えない。 -/
theorem unshare_zero_child_pid_namespace {s s' : ProcSys} {cur : Nat} {r : Int}
    (h : unshare s cur 0 = .ok (s', r)) :
    (s'.proc cur).child_pid_namespace = (s.proc cur).child_pid_namespace := by
  obtain ⟨_, _, _, _, -, -, -, ⟨hf, -⟩ | ⟨-, rfl⟩⟩ := unshare_eq_ok h
  · exact absurd hf (by decide)
  · simp

/--
**二度目の `unshare(PID_NS)` は戻らない。** `child_pid_namespace` を持つ process の `unshare(PID_NS)` は
0 も -1 も返さない。nsproxy の作り直しが通る（`unshare(0)` が戻る）なら、
"pid_namespace already unshared\n" で panic する。
-/
theorem unshare_twice_panics {s : ProcSys} {cur : Nat} {flags : Int}
    (hc : (s.proc cur).child_pid_namespace ≠ none) (hf : Int.land flags PID_NS > 0) :
    (∀ p, unshare s cur flags ≠ .ok p) ∧
      ∀ p, unshare s cur 0 = .ok p →
        unshare s cur flags = .error (.panic "pid_namespace already unshared\n") := by
  rw [unshare_of_pid_ns hf]
  cases h0 : unshare s cur 0 with
  | error e => simp
  | ok p =>
    obtain ⟨s', r⟩ := p
    have hc' : (s'.proc cur).child_pid_namespace ≠ none := by
      rw [unshare_zero_child_pid_namespace h0]
      exact hc
    simp [unsharePidNs_of_unshared hc']

/-- 起動した kernel で init process が `unshare(PID_NS)` を二度呼ぶと、二度目は panic する。 -/
theorem unshare_twice_at_boot :
    ∃ s s₁ r, userinit ProcSys.zero = .ok s ∧ unshare s 0 1 = .ok (s₁, r) ∧
      (s₁.proc 0).child_pid_namespace ≠ none ∧ Int.land 1 PID_NS > 0 ∧
      ((∀ p, unshare s₁ 0 1 ≠ .ok p) ∧
        ∀ p, unshare s₁ 0 0 = .ok p → unshare s₁ 0 1 = .error (.panic "pid_namespace already unshared\n")) ∧
      ∃ s₂ r₂, unshare s₁ 0 0 = .ok (s₂, r₂) := by
  obtain ⟨s, s₁, r, s₂, r₂, h₀, hu, hc, hz⟩ : ∃ s s₁ r s₂ r₂, userinit ProcSys.zero = .ok s ∧
      unshare s 0 1 = .ok (s₁, r) ∧ (s₁.proc 0).child_pid_namespace ≠ none ∧
      unshare s₁ 0 0 = .ok (s₂, r₂) := ⟨_, _, _, _, _, rfl, rfl, by decide, rfl⟩
  exact ⟨s, s₁, r, h₀, hu, hc, by decide, unshare_twice_panics hc (by decide), s₂, r₂, hz⟩

/-! ## 作り直された namespace -/

set_option maxRecDepth 8000 in
/--
process A が `unshare(PID_NS)` して B を作り、B がさらに `unshare(PID_NS)` して C を作る。
C は A の namespace 1 で pid 2 を持つ。B と A が `exit` すると namespace 1 の `count` は 0 になり、
init process の `unshare(PID_NS)` がそれを作り直す。続く二つ目の子 E は namespace 1 で pid 2 を
受け取り、生きている C と同じ pid になる。C の namespace 2 の親は、作り直された entry 1 を指したままである。
-/
theorem pid_reused_after_namespace_freed :
    ∃ s, ProcReach s ∧ (s.proc 3).state = .RUNNABLE ∧ (s.proc 5).state = .RUNNABLE ∧
      0 < (s.ns.pid_namespaces 1).count ∧
      get_namespace_pid (s.proc 3) (some 1) = 2 ∧ get_namespace_pid (s.proc 5) (some 1) = 2 ∧
      pidNsOf s 3 = some 2 ∧ (s.ns.pid_namespaces 2).parent = some 1 := by
  obtain ⟨s₀, s, h₀, hs, h⟩ : ∃ s₀ s, userinit ProcSys.zero = .ok s₀ ∧
      runList runProc s₀ [.fork 0, .unshare 1 1, .fork 1, .unshare 2 1, .fork 2, .exit 2 0, .exit 1 0,
        .unshare 0 1, .fork 0, .fork 0] = .ok s ∧
      ((s.proc 3).state = .RUNNABLE ∧ (s.proc 5).state = .RUNNABLE ∧
      0 < (s.ns.pid_namespaces 1).count ∧
      get_namespace_pid (s.proc 3) (some 1) = 2 ∧ get_namespace_pid (s.proc 5) (some 1) = 2 ∧
      pidNsOf s 3 = some 2 ∧ (s.ns.pid_namespaces 2).parent = some 1) :=
    ⟨_, _, rfl, rfl, rfl, rfl, by decide, rfl, rfl, rfl, rfl⟩
  exact ⟨s, .of_runList h₀ hs, h⟩

/-! ## 親の鎖が輪になった namespace -/

/-- `alloc_new_pid` は namespace の親を変えない。 -/
theorem alloc_new_pid_parent (t : NsTables) (i m : Nat) :
    ((alloc_new_pid t i).1.pid_namespaces m).parent = (t.pid_namespaces m).parent := by
  by_cases hm : m = i
  · subst hm
    simp [alloc_new_pid]
  · simp [alloc_new_pid, hm]

/--
親をたどって閉じた namespace の集まり `S`（どの元にも `S` の中の親がある）から始めると、
`set_up_pids` の loop は `S` から出られず、段を使い切って panic する。
-/
theorem setUpPidsLoop_closed {S : Nat → Prop} {np : Nat} :
    ∀ {k i n : Nat} {s : ProcSys}, (∀ m, S m → ∃ m', (s.ns.pid_namespaces m).parent = some m' ∧ S m') →
    S n → setUpPidsLoop np k i (some n) s = .error (.panic "fork: There are too many nested pid_namespaces!")
  | 0, _, _, _, _, _ => rfl
  | k + 1, i, n, s, hS, hn => by
    obtain ⟨m, hm, hSm⟩ := hS n hn
    simp only [setUpPidsLoop, alloc_new_pid_parent, hm]
    -- 次の段の表でも親は同じなので、`S` は閉じたままである
    refine setUpPidsLoop_closed (fun m' hm' => ?_) hSm
    simpa [alloc_new_pid_parent] using hS m' hm'

/-- 空きの nsproxy があれば、既にある namespace を指す `create_nsproxy` は成功し、親を変えない。 -/
theorem create_nsproxy_some_ok {t : NsTables} {c : Nat} (hfree : ∃ j < NNAMESPACE, (t.nsproxy j).count = 0) :
    ∃ t' j, create_nsproxy t (some c) = .ok (t', j) ∧
      ∀ m, (t'.pid_namespaces m).parent = (t.pid_namespaces m).parent := by
  unfold create_nsproxy
  cases hj : (List.range NNAMESPACE).find? (fun j => (t.nsproxy j).count == 0) with
  | none =>
    obtain ⟨j, hjn, hj0⟩ := hfree
    have := List.find?_eq_none.mp hj j (List.mem_range.mpr hjn)
    simp [hj0] at this
  | some j =>
    refine ⟨_, j, rfl, fun m => ?_⟩
    by_cases hm : m = c
    · subst hm
      simp [increase_pid_namespace_count]
    · simp [increase_pid_namespace_count, hm]

/-- `UNUSED` の slot があれば `allocproc` は成功する。 -/
theorem allocproc_isSome {s : ProcSys} (hfree : ∃ p < NPROC, (s.proc p).state = .UNUSED) :
    ∃ s' np, allocproc s = some (s', np) := by
  unfold allocproc
  cases hp : (List.range NPROC).find? (fun p => (s.proc p).state == .UNUSED) with
  | none =>
    obtain ⟨p, hpn, hpu⟩ := hfree
    have := List.find?_eq_none.mp hp p (List.mem_range.mpr hpn)
    simp [hpu] at this
  | some p => exact ⟨_, p, rfl⟩

/--
**親の鎖が輪になった namespace の下では `fork` が panic する。** 子のための namespace `c` が、
親をたどって閉じた集まり `S` に入っていれば、空きの slot と nsproxy があっても `fork` は
"fork: There are too many nested pid_namespaces!" で panic する。
-/
theorem fork_panics_on_parent_cycle {s : ProcSys} {cur c : Nat} {S : Nat → Prop}
    (hS : ∀ m, S m → ∃ m', (s.ns.pid_namespaces m).parent = some m' ∧ S m')
    (hc : (s.proc cur).child_pid_namespace = some c) (hcS : S c)
    (hslot : ∃ p < NPROC, (s.proc p).state = .UNUSED)
    (hnsp : ∃ j < NNAMESPACE, (s.ns.nsproxy j).count = 0) :
    fork s cur = .error (.panic "fork: There are too many nested pid_namespaces!") := by
  obtain ⟨s₁, np, ha⟩ := allocproc_isSome hslot
  obtain ⟨-, -, hns, hch⟩ := allocproc_spec ha
  -- 親の `child_pid_namespace` は `allocproc` と `parent` の設定で変わらない
  have hc₁ : ((s₁.modify np fun q => { q with parent := some cur }).proc cur).child_pid_namespace =
      some c := by
    rw [modify_parent_child_pid_namespace, hch, hc]
  obtain ⟨t, j, ht, hpar⟩ : ∃ t j, create_nsproxy s₁.ns (some c) = .ok (t, j) ∧
      ∀ m, (t.pid_namespaces m).parent = (s₁.ns.pid_namespaces m).parent :=
    create_nsproxy_some_ok (hns ▸ hnsp)
  have hloop : setUpPidsLoop np PID_NAMESPACE_MAX_DEPTH 0 (some c)
      { (s₁.modify np fun q => { q with parent := some cur }).modify np
        (fun q => { q with nsproxy := some j }) with ns := t } =
      .error (.panic "fork: There are too many nested pid_namespaces!") := by
    refine setUpPidsLoop_closed (fun m hm => ?_) hcS
    obtain ⟨m', hm', hSm'⟩ := hS m hm
    refine ⟨m', ?_, hSm'⟩
    rw [← hm', ← hns]
    exact hpar m
  unfold fork set_up_child_pid_namespace set_up_pids
  simp only [ha, hc₁, ProcSys.modify_ns]
  rw [ht]
  simp only [ok_bind, pure_eq_ok]
  rw [hloop]
  rfl

set_option maxRecDepth 8000 in
/--
`pid_reused_after_namespace_freed` と同じ run で B と A が `exit` すると、生きている C（slot 3）の
namespace 2 の親 1 は `count` 0 になる。C が `unshare(PID_NS)` すると、entry 1 が C の namespace 2 を
親として作り直され、1 と 2 は互いを親に持つ。C の `fork` は panic する。
-/
theorem namespace_cycle_after_reuse :
    ∃ s₁ s, ProcReach s₁ ∧ (s₁.proc 3).state = .RUNNABLE ∧ pidNsOf s₁ 3 = some 2 ∧
      (s₁.ns.pid_namespaces 2).parent = some 1 ∧ (s₁.ns.pid_namespaces 1).count = 0 ∧
      runProc s₁ (.unshare 3 1) = .ok s ∧ (s.proc 3).child_pid_namespace = some 1 ∧
      (s.ns.pid_namespaces 1).parent = some 2 ∧ (s.ns.pid_namespaces 2).parent = some 1 ∧
      fork s 3 = .error (.panic "fork: There are too many nested pid_namespaces!") := by
  obtain ⟨s₀, s₁, s, h₀, hs₁, hrun, hst, hns, hpar₁, hcnt, hch, hp1, hp2, hslot, hnsp⟩ :
      ∃ s₀ s₁ s, userinit ProcSys.zero = .ok s₀ ∧
      runList runProc s₀ [.fork 0, .unshare 1 1, .fork 1, .unshare 2 1, .fork 2, .exit 2 0, .exit 1 0] = .ok s₁ ∧
      runProc s₁ (.unshare 3 1) = .ok s ∧ (s₁.proc 3).state = .RUNNABLE ∧ pidNsOf s₁ 3 = some 2 ∧
      (s₁.ns.pid_namespaces 2).parent = some 1 ∧ (s₁.ns.pid_namespaces 1).count = 0 ∧
      (s.proc 3).child_pid_namespace = some 1 ∧ (s.ns.pid_namespaces 1).parent = some 2 ∧
      (s.ns.pid_namespaces 2).parent = some 1 ∧ (s.proc 4).state = .UNUSED ∧ (s.ns.nsproxy 2).count = 0 :=
    ⟨_, _, _, rfl, rfl, rfl, rfl, rfl, rfl, rfl, rfl, rfl, rfl, rfl, rfl⟩
  -- 1 と 2 は互いを親に持つので、親をたどって閉じている
  have hS : ∀ m, (m = 1 ∨ m = 2) → ∃ m', (s.ns.pid_namespaces m).parent = some m' ∧ (m' = 1 ∨ m' = 2) := by
    rintro m (rfl | rfl)
    · exact ⟨2, hp1, .inr rfl⟩
    · exact ⟨1, hp2, .inl rfl⟩
  exact ⟨s₁, s, .of_runList h₀ hs₁, hst, hns, hpar₁, hcnt, hrun, hch, hp1, hp2,
    fork_panics_on_parent_cycle hS hch (.inl rfl) ⟨4, by decide, hslot⟩ ⟨2, by decide, hnsp⟩⟩

end Xv6
