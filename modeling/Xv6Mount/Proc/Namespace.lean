import Xv6Mount.Infra.Trace
import Xv6Mount.Param

/-!
# nsproxy と pid namespace の表（`namespace.c`・`pid_namespace.c`）

`nstable` と `pid_ns_table` はどちらも `NNAMESPACE` 個の entry を持つ。entry は番号で指し、
null pointer は `none` で表す。どちらの entry も `count` が 0 なら空きで、確保する関数は
先頭から `count == 0` の entry を探す。

* nsproxy の `count` は、その nsproxy を指す process の数である。0 になると
  `put_nsproxy` が pid namespace の `count` を一つ減らし、`pid_ns` を null にする
* pid namespace の `count` は、それを指す nsproxy と、それを `child_pid_namespace` に持つ
  process の数である。`create_new_pid_namespace` は空きの entry を `next_pid = 1` で作り直す

`ns_init` は `main` の中で `mpmain` の後にあり呼ばれないが、表は 0 で初期化された
global なので、`init_pid_namespaces` が作る表と同じである。
-/

namespace Xv6

open Infra

/-- `struct pid_namespace`。`parent` は親の entry。 -/
structure PidNamespace where
  count : Int
  parent : Option Nat
  next_pid : Int
  depth : Int
  is_pid_1_killed : Bool
deriving DecidableEq, Repr

/-- `struct nsproxy`。 -/
structure Nsproxy where
  count : Int
  pid_ns : Option Nat
deriving DecidableEq, Repr

/-- `pid_ns_table` と `nstable`。 -/
structure NsTables where
  pid_namespaces : Nat → PidNamespace
  nsproxy : Nat → Nsproxy

/-- 0 で初期化された表。 -/
def NsTables.zero : NsTables := ⟨fun _ => ⟨0, none, 0, 0, false⟩, fun _ => ⟨0, none⟩⟩

/-- pid namespace `i` を `f` で書き換える。 -/
def NsTables.modifyPidNs (t : NsTables) (i : Nat) (f : PidNamespace → PidNamespace) : NsTables :=
  { t with pid_namespaces := Function.update t.pid_namespaces i (f (t.pid_namespaces i)) }

/-- nsproxy `j` を `f` で書き換える。 -/
def NsTables.modifyNsproxy (t : NsTables) (j : Nat) (f : Nsproxy → Nsproxy) : NsTables :=
  { t with nsproxy := Function.update t.nsproxy j (f (t.nsproxy j)) }

section modify

variable (t : NsTables) (i : Nat)

@[simp] theorem NsTables.modifyPidNs_self (f : PidNamespace → PidNamespace) :
    (t.modifyPidNs i f).pid_namespaces i = f (t.pid_namespaces i) := by
  simp [NsTables.modifyPidNs]

@[simp] theorem NsTables.modifyPidNs_of_ne (f : PidNamespace → PidNamespace) {k : Nat} (h : k ≠ i) :
    (t.modifyPidNs i f).pid_namespaces k = t.pid_namespaces k := by
  simp [NsTables.modifyPidNs, h]

@[simp] theorem NsTables.modifyPidNs_nsproxy (f : PidNamespace → PidNamespace) :
    (t.modifyPidNs i f).nsproxy = t.nsproxy := rfl

@[simp] theorem NsTables.modifyNsproxy_self (f : Nsproxy → Nsproxy) :
    (t.modifyNsproxy i f).nsproxy i = f (t.nsproxy i) := by
  simp [NsTables.modifyNsproxy]

@[simp] theorem NsTables.modifyNsproxy_of_ne (f : Nsproxy → Nsproxy) {k : Nat} (h : k ≠ i) :
    (t.modifyNsproxy i f).nsproxy k = t.nsproxy k := by
  simp [NsTables.modifyNsproxy, h]

@[simp] theorem NsTables.modifyNsproxy_pid_namespaces (f : Nsproxy → Nsproxy) :
    (t.modifyNsproxy i f).pid_namespaces = t.pid_namespaces := rfl

end modify

/-! ## pid namespace -/

/-- `check_is_pid_namespace_legal`。子を作れる深さか。 -/
def check_is_pid_namespace_legal (ns : PidNamespace) : Bool := ns.depth < PID_NAMESPACE_MAX_DEPTH

/-- `increase_pid_namespace_count`。 -/
def increase_pid_namespace_count (t : NsTables) (i : Nat) : NsTables :=
  t.modifyPidNs i fun ns => { ns with count := ns.count + 1 }

/-- `remove_from_pid_namespace`。負になるなら戻して panic する。 -/
def remove_from_pid_namespace (t : NsTables) (i : Nat) : Except Stop NsTables :=
  if (t.pid_namespaces i).count - 1 < 0 then
    .error (.panic "remove_from_pid_namespace: this pid_namespace is never used")
  else .ok (t.modifyPidNs i fun ns => { ns with count := ns.count - 1 })

/--
`create_new_pid_namespace`。`count == 0` の最初の entry を `count = 1`、`next_pid = 1` で
作り直す。深さは親の深さ足す 1、親がなければ 1。
-/
def create_new_pid_namespace (t : NsTables) (parent_namespace : Option Nat) :
    Except Stop (NsTables × Nat) :=
  match (List.range NNAMESPACE).find? (fun i => (t.pid_namespaces i).count == 0) with
  | some i =>
    let depth := match parent_namespace with
      | none => 1
      | some p => (t.pid_namespaces p).depth + 1
    .ok ({ t with pid_namespaces :=
      Function.update t.pid_namespaces i ⟨1, parent_namespace, 1, depth, false⟩ }, i)
  | none => .error (.panic "all pid_namespaces are occupied")

/-- `alloc_new_pid`。`next_pid` を返し、一つ進める。 -/
def alloc_new_pid (t : NsTables) (i : Nat) : NsTables × Int :=
  (t.modifyPidNs i fun ns => { ns with next_pid := ns.next_pid + 1 }, (t.pid_namespaces i).next_pid)

/-! ## nsproxy -/

/--
`create_nsproxy`。`count == 0` の最初の nsproxy を `count = 1` にする。`pid_namespace` が
null なら新しい root の pid namespace を作り、そうでなければその `count` を増やす。
-/
def create_nsproxy (t : NsTables) (pid_namespace : Option Nat) : Except Stop (NsTables × Nat) :=
  match (List.range NNAMESPACE).find? (fun j => (t.nsproxy j).count == 0) with
  | some j => do
    let (t, ns) ← match pid_namespace with
      | none => create_new_pid_namespace t none
      | some p => pure (increase_pid_namespace_count t p, p)
    pure ({ t with nsproxy := Function.update t.nsproxy j ⟨1, some ns⟩ }, j)
  | none => .error (.panic "namespace out of max!\n")

/-- `put_nsproxy`。最後の参照なら pid namespace の参照を放し、`pid_ns` を null にする。 -/
def put_nsproxy (t : NsTables) (j : Nat) : Except Stop NsTables :=
  let t := t.modifyNsproxy j fun n => { n with count := n.count - 1 }
  if (t.nsproxy j).count = 0 then
    match (t.nsproxy j).pid_ns with
    | some i => do
      let t ← remove_from_pid_namespace t i
      pure (t.modifyNsproxy j fun n => { n with pid_ns := none })
    | none => .error .fault
  else .ok t

/-- `remove_from_pid_namespace` は nsproxy の表を変えない。 -/
theorem remove_from_pid_namespace_nsproxy {t t' : NsTables} {i : Nat}
    (h : remove_from_pid_namespace t i = .ok t') : t'.nsproxy = t.nsproxy := by
  unfold remove_from_pid_namespace at h
  split at h
  · cases h
  · cases h
    rfl

/-- `put_nsproxy` の後の nsproxy は、元の pid namespace を指すか、null を指す。 -/
theorem put_nsproxy_pid_ns {t t' : NsTables} {j : Nat} (h : put_nsproxy t j = .ok t') (k : Nat) :
    (t'.nsproxy k).pid_ns = (t.nsproxy k).pid_ns ∨ (t'.nsproxy k).pid_ns = none := by
  unfold put_nsproxy at h
  simp only at h
  split at h
  · split at h
    · obtain ⟨t₁, h₁, h⟩ := bind_eq_ok.mp h
      cases h
      by_cases hk : k = j
      · subst hk
        exact .inr (by simp)
      · refine .inl ?_
        rw [NsTables.modifyNsproxy_of_ne _ _ _ hk, remove_from_pid_namespace_nsproxy h₁,
          NsTables.modifyNsproxy_of_ne _ _ _ hk]
    · simp at h
  · cases h
    refine .inl ?_
    by_cases hk : k = j
    · subst hk
      simp
    · rw [NsTables.modifyNsproxy_of_ne _ _ _ hk]

/-- `get_nsproxy`。 -/
def get_nsproxy (t : NsTables) (j : Nat) : NsTables :=
  t.modifyNsproxy j fun n => { n with count := n.count + 1 }

end Xv6
