import Xv6Mount.Fs.Rw
import Xv6Mount.Log.Calls

/-!
# block の層の `readi`・`writei` は byte の列の `readi`・`writei` を実装する

`Agrees st len D` は、block の層の file の先頭 `len` byte が割り当て済みで、byte の列 `D` と
同じだということである。`writei` の loop は一回ごとに block の境目までの `m` byte を書くので、
`Agrees` の範囲は `[off, off + m)` の上書きで伸びる（`Agrees.write_chunk`）。loop 全体は
範囲 `[off, off + n)` の上書きになり（`writeiLoop_spec`）、`writei` は
`Xv6Mount/Fs/Balloc.lean` の `writei` と同じ値を返して同じ中身を残す（`writei_refines`）。
`readi` は状態を変えずに byte の列の `readi` と同じものを読む（`readi_refines`）。

ただし loop は block ごとに `log_write` するので、log の空きが足りる書き込みに限る。空きは
一回ごとに多くとも六つ（`bmap` の五つと中身の block）使う。書き込みが log の枠より多くの
block に触れば、`writei` は途中で "too big a transaction" の panic で止まる（`writei_overflows_log`）。
`log_write` した buffer は commit まで cache に pin されるので、二つの log が pin した buffer が
`NBUF` に近ければ、C の `bget` は log の枠より先に "no buffers" で止まる。`RwSys` は buffer cache を
持たないので、`writei_round_trip` はその分を仮定に含める（`pinnedBufs`）。
-/

namespace Xv6

namespace Rw

open Infra

/-! ## block の境目で区切った範囲 -/

/-- 一回分の範囲 `[off, off + m)` は block `off / BSIZE` の中で、位置 `off % BSIZE` から並ぶ。 -/
theorem chunk_div_mod {off m j : Nat} (hm : m ≤ BSIZE - off % BSIZE) (hj : j < m) :
    (off + j) / BSIZE = off / BSIZE ∧ (off + j) % BSIZE = off % BSIZE + j := by
  unfold BSIZE at *
  omega

/-- byte の範囲 `[off, off + len)` が触る block の数。loop が回る回数である。 -/
def spanned (off len : Nat) : Nat := if len = 0 then 0 else (off + len - 1) / BSIZE - off / BSIZE + 1

theorem spanned_step {off len : Nat} (h : 0 < len) :
    spanned off len =
      spanned (off + min len (BSIZE - off % BSIZE)) (len - min len (BSIZE - off % BSIZE)) + 1 := by
  unfold spanned BSIZE
  split_ifs <;> omega

/-! ## block の層の file と byte の列 -/

/-- block の層の file の先頭 `len` byte は割り当て済みで、byte の列 `D` と同じである。 -/
def Agrees (st : RwSys) (len : Nat) (D : Nat → Nat) : Prop :=
  ∀ i < len, addrOf st (i / BSIZE) ≠ 0 ∧ content st i = D i

section agrees

variable {sb : Superblock} {st : RwSys} {D : Nat → Nat}

theorem div_lt_MAXFILE {i : Nat} (h : i < MAXFILE * BSIZE) : i / BSIZE < MAXFILE := by
  unfold BSIZE at *
  omega

/-- file の中身は log 層によらない。 -/
theorem Agrees.setLogs {len : Nat} (hag : Agrees st len D) (logs : LogSys) : Agrees { st with logs } len D := hag

/-- 割り当て済みの block をそのまま持つ状態でも、file は同じ byte の列である。 -/
theorem Agrees.of_extends {st' : RwSys} {len : Nat} (hag : Agrees st len D) (hlen : len ≤ MAXFILE * BSIZE)
    (hext : Extends st st') : Agrees st' len D := by
  intro i hi
  obtain ⟨hm, hc⟩ := hag i hi
  obtain ⟨ha, hb⟩ := hext _ (div_lt_MAXFILE (by omega)) hm
  refine ⟨ha ▸ hm, ?_⟩
  unfold content at hc ⊢
  rw [ha, hb]
  exact hc

/--
**一回分の書き込み。** block `addrOf st (off / BSIZE)` の `off % BSIZE` から `m` byte に `src` の `tot` からを
写すと、file は範囲 `[off, off + m)` を上書きした列になり、`Agrees` の範囲は `off + m` まで伸びる。
-/
theorem Agrees.write_chunk (hinv : FileInv sb st) {lim off m tot : Nat} (src : List Nat)
    (hag : Agrees st lim D) (hoff : off ≤ lim) (hlim : lim ≤ MAXFILE * BSIZE) (hm0 : 0 < m)
    (hm : m ≤ BSIZE - off % BSIZE) (hend : off + m ≤ MAXFILE * BSIZE) (ha : addrOf st (off / BSIZE) ≠ 0) :
    Agrees { st with block := (Function.update st.block (addrOf st (off / BSIZE))
        (copyIn (st.block (addrOf st (off / BSIZE))) src tot (off % BSIZE) m)) }
      (max lim (off + m)) (overwrite D off (fun j => src.getD (tot + j) 0) m) := by
  have hbn : off / BSIZE < MAXFILE := div_lt_MAXFILE (by omega)
  have haddr := addrOf_update_of_ne_indirect
    (copyIn (st.block (addrOf st (off / BSIZE))) src tot (off % BSIZE) m) (hinv.addr_ne_indirect _ hbn ha)
  intro i hi
  unfold content
  rw [haddr]
  dsimp only
  by_cases hin : off ≤ i ∧ i < off + m
  · -- 書いた範囲の中：block は `off / BSIZE` で、位置は `off % BSIZE + (i - off)`
    obtain ⟨hdiv, hmod⟩ := chunk_div_mod hm (show i - off < m by omega)
    rw [Nat.add_sub_cancel' hin.1] at hdiv hmod
    refine ⟨hdiv ▸ ha, ?_⟩
    simp only [overwrite, if_pos hin, hdiv, Function.update_self, copyIn, hmod]
    rw [if_pos (by omega), Nat.add_sub_cancel_left]
  · -- 範囲の外：前から一致していた byte で、同じ block でも書いた位置とは違う
    have hil : i < lim := by omega
    obtain ⟨hmi, hci⟩ := hag i hil
    refine ⟨hmi, ?_⟩
    simp only [overwrite, if_neg hin]
    rw [← hci, content]
    by_cases hsame : addrOf st (i / BSIZE) = addrOf st (off / BSIZE)
    · have hdiv : i / BSIZE = off / BSIZE :=
        hinv.addr_inj _ (div_lt_MAXFILE (by omega)) _ hbn hmi hsame
      rw [hsame, Function.update_self, copyIn, if_neg (by unfold BSIZE at *; omega)]
    · rw [Function.update_of_ne hsame]

end agrees

/-! ## `uint` の範囲の検査 -/

/-- `off + n < off` は、`uint` の足し算が回ることである。 -/
theorem add_lt_self_iff {off n : UInt32} : off + n < off ↔ 2 ^ 32 ≤ off.toNat + n.toNat := by
  have ho := UInt32.toNat_lt off
  have hn := UInt32.toNat_lt n
  rw [UInt32.lt_iff_toNat_lt, UInt32.toNat_add]
  constructor
  · intro h
    by_contra hc
    rw [Nat.mod_eq_of_lt (by omega)] at h
    omega
  · intro h
    rw [Nat.mod_eq_sub_mod h, Nat.mod_eq_of_lt (by omega)]
    omega

/-- 回らない `uint` の足し算は `Nat` の足し算である。 -/
theorem toNat_add_of_not_lt {off n : UInt32} (h : ¬ off + n < off) : (off + n).toNat = off.toNat + n.toNat := by
  rw [add_lt_self_iff] at h
  rw [UInt32.toNat_add, Nat.mod_eq_of_lt (by omega)]

/-- `size` から始まり `MAXFILE` block に収まる範囲は、`writei` の入口の検査を通り、足し算は回らない。 -/
theorem writei_checks_pass {size off n : UInt32} (hoff : off.toNat ≤ size.toNat)
    (hn : off.toNat + n.toNat ≤ MAXFILE * BSIZE) :
    ¬ (off > size ∨ off + n < off) ∧ ¬ off + n > (MAXFILE * BSIZE).toUInt32 ∧
      (off + n).toNat = off.toNat + n.toNat := by
  have hmax : MAXFILE * BSIZE < 2 ^ 32 := by decide
  have hadd : (off + n).toNat = off.toNat + n.toNat := by
    rw [UInt32.toNat_add, Nat.mod_eq_of_lt (by omega)]
  refine ⟨?_, ?_, hadd⟩
  · rw [not_or, gt_iff_lt, UInt32.lt_iff_toNat_lt, UInt32.lt_iff_toNat_lt, hadd]
    omega
  · rw [gt_iff_lt, UInt32.lt_iff_toNat_lt, hadd, show (MAXFILE * BSIZE).toUInt32.toNat = MAXFILE * BSIZE from rfl]
    omega

/-! ## `writei` -/

section write

variable {sb : Superblock} {dev : Nat}

/--
**`writei` の loop。** 整合した inode で、file の先頭 `lim` byte が `D` と一致し、書き始めの `off` が
`lim` を越えなければ、loop は範囲 `[off, off + (n - tot))` に `src` の `tot` からを書き、file は
その範囲を上書きした列になる。log の空きは触る block ごとに多くとも六つ、空き block は二つ使う。
-/
theorem writeiLoop_spec (src : List Nat) (n : Nat) (st : RwSys) (tot off : Nat) {lim k : Nat} {D : Nat → Nat}
    (hinv : FileInv sb st) (hag : Agrees st lim D) (hoff : off ≤ lim) (hlim : lim ≤ MAXFILE * BSIZE)
    (hend : off + (n - tot) ≤ MAXFILE * BSIZE)
    (hroom : (st.logs.logOf dev).Room (6 * spanned off (n - tot) + k))
    (hfree : 2 * spanned off (n - tot) ≤ nfree sb st.block) :
    ∃ st', writeiLoop sb dev src n st tot off = .ok (st', off + (n - tot)) ∧ FileInv sb st' ∧
      st'.size = st.size ∧
      Agrees st' (max lim (off + (n - tot))) (overwrite D off (fun j => src.getD (tot + j) 0) (n - tot)) ∧
      (st'.logs.logOf dev).Room k := by
  -- 帰納法は loop の回数について。一回ごとに `Agrees` の範囲が `off + m` まで伸びる
  fun_induction writeiLoop sb dev src n st tot off generalizing lim D with
  | case1 st tot off h ih =>
    obtain ⟨m, hm⟩ : ∃ m, min (n - tot) (BSIZE - off % BSIZE) = m := ⟨_, rfl⟩
    have hm0 : 0 < m := hm ▸ chunk_pos off h
    have hmle : m ≤ BSIZE - off % BSIZE := hm ▸ Nat.min_le_right _ _
    have hmn : m ≤ n - tot := hm ▸ Nat.min_le_left _ _
    have hs : spanned off (n - tot) = spanned (off + m) (n - (tot + m)) + 1 := by
      rw [spanned_step (by omega), hm, Nat.sub_sub]
    rw [hm] at ih
    rw [hs] at hroom hfree
    have hbn : off / BSIZE < MAXFILE := div_lt_MAXFILE (by omega)
    -- `bmap` が block を引き（なければ割り当て）、その block に写して `log_write` する
    obtain ⟨st₁, hb, ha, hg⟩ := bmap_spec
      (k := 6 * spanned (off + m) (n - (tot + m)) + k + 1) hinv hbn (by omega) (hroom.mono (by omega))
    obtain ⟨logs, hl, hr⟩ := logWrite_of_room hg.room (addrOf st₁ (off / BSIZE))
    have hbits := hg.inv.owned_ne_bitmap _ (Owned.of_addrOf hbn ha)
    obtain ⟨st', hst', hinv', hsize', hag', hr'⟩ := ih st₁ (addrOf st₁ (off / BSIZE)) logs
      ((hg.inv.write_data hbn ha _).setLogs logs)
      (((hag.of_extends hlim hg.ext).write_chunk hg.inv src hoff hlim hm0 hmle (by omega) ha).setLogs logs)
      (le_max_right _ _) (max_le hlim (by omega)) (by omega) hr
      (by have := hg.nfree_le; rw [nfree_update_of_ne_bitmap _ hbits]; omega)
    have hlen : m + (n - (tot + m)) = n - tot := by omega
    have hf : (fun j => src.getD (tot + m + j) 0) = fun j => (fun j => src.getD (tot + j) 0) (m + j) := by
      funext j
      rw [Nat.add_assoc]
    rw [hf, overwrite_overwrite, hlen, show max (max lim (off + m)) (off + m + (n - (tot + m))) =
      max lim (off + (n - tot)) by omega] at hag'
    refine ⟨st', ?_, hinv', hsize'.trans hg.size_eq, hag', hr'⟩
    rw [hb, ok_bind]
    dsimp only
    rw [hm, hl, ok_bind, hst', Nat.add_assoc, hlen]
  | case2 st tot off h =>
    have h0 : n - tot = 0 := by omega
    rw [h0] at hroom ⊢
    refine ⟨st, by rw [Nat.add_zero]; rfl, hinv, rfl, ?_, ?_⟩
    · rw [overwrite_zero, Nat.add_zero, max_eq_left hoff]
      exact hag
    · simpa [spanned] using hroom

/--
**`writei` は byte の列の `writei` を実装する。** 整合した inode で、file の先頭 `size` byte が `D` と
一致し、log と空き block が書き込みに足りれば、`writei` は `Xv6Mount/Fs/Balloc.lean` の `writei` と
同じ値を返し、同じ `size` と中身を残す。
-/
theorem writei_refines {inum : Nat} {st : RwSys} {D : Nat → Nat} {src : List Nat} {off n : UInt32}
    (hinv : FileInv sb st) (hag : Agrees st st.size.toNat D)
    (hroom : (st.logs.logOf dev).Room (6 * spanned off.toNat n.toNat + 1))
    (hfree : 2 * spanned off.toNat n.toNat ≤ nfree sb st.block) :
    ∃ st', writei sb dev inum st src off n = .ok (st', (Xv6.writei st.size D src off n).1) ∧
      st'.size = (Xv6.writei st.size D src off n).2.1 ∧ FileInv sb st' ∧
      Agrees st' st'.size.toNat (Xv6.writei st.size D src off n).2.2 := by
  unfold writei Xv6.writei
  by_cases h₁ : off > st.size ∨ off + n < off
  · rw [if_pos h₁, if_pos h₁]
    exact ⟨st, rfl, rfl, hinv, hag⟩
  rw [if_neg h₁, if_neg h₁]
  by_cases h₂ : off + n > (MAXFILE * BSIZE).toUInt32
  · rw [if_pos h₂, if_pos h₂]
    exact ⟨st, rfl, rfl, hinv, hag⟩
  rw [if_neg h₂, if_neg h₂]
  -- 検査を通った範囲は回らず、`size` から始まり、`MAXFILE` block に収まる
  rw [not_or] at h₁
  have hadd := toNat_add_of_not_lt h₁.2
  have hoff : off.toNat ≤ st.size.toNat := Nat.not_lt.mp (UInt32.lt_iff_toNat_lt.not.mp h₁.1)
  have hmax : off.toNat + n.toNat ≤ MAXFILE * BSIZE := by
    have h := UInt32.lt_iff_toNat_lt.not.mp h₂
    rw [hadd] at h
    exact Nat.not_lt.mp h
  obtain ⟨st₁, hl, hinv₁, hsize₁, hag₁, hr₁⟩ := writeiLoop_spec src n.toNat st 0 off.toNat
    hinv hag hoff hinv.size_le (by omega) (show (st.logs.logOf dev).Room _ by rwa [Nat.sub_zero])
    (by rwa [Nat.sub_zero])
  rw [Nat.sub_zero] at hag₁
  rw [hl, ok_bind]
  dsimp only
  rw [Nat.sub_zero, hsize₁]
  -- 上書きした列は、byte の列の `writei` が残す中身である
  have hD : overwrite D off.toNat (fun j => src.getD (0 + j) 0) n.toNat = fun i =>
      if off.toNat ≤ i ∧ i < off.toNat + n.toNat then src.getD (i - off.toNat) 0 else D i := by
    funext i
    simp only [overwrite, Nat.zero_add]
  rw [hD] at hag₁
  have hn : n > 0 ↔ 0 < n.toNat := by rw [gt_iff_lt, UInt32.lt_iff_toNat_lt, UInt32.toNat_zero]
  have hgt : (n > 0 ∧ off + n > st.size) ↔ (n > 0 ∧ off.toNat + n.toNat > st.size.toNat) :=
    and_congr_right fun _ => by rw [gt_iff_lt, gt_iff_lt, UInt32.lt_iff_toNat_lt, hadd]
  by_cases h₃ : n > 0 ∧ off.toNat + n.toNat > st.size.toNat
  · -- `size` を越えて書いた：`ip->size = off` として inode block を `log_write` する
    rw [if_pos h₃, if_pos (hgt.mpr h₃)]
    obtain ⟨logs, hlog, -⟩ := logWrite_of_room (k := 0) hr₁ (IBLOCK inum sb)
    have hsz : (off.toNat + n.toNat).toUInt32 = off + n :=
      UInt32.toNat_inj.mp (by rw [UInt32.toNat_ofNat_of_lt' (Nat.lt_of_le_of_lt hmax (by decide)), hadd])
    refine ⟨{ st₁ with size := off + n, logs }, by rw [hlog, ok_bind, hsz]; rfl, rfl, ?_, ?_⟩
    · exact hinv₁.of_same rfl (by rw [hadd]; exact hmax) (fun _ => rfl) (fun _ => Iff.rfl)
    · rw [show (off + n).toNat = max st.size.toNat (off.toNat + n.toNat) by rw [hadd]; omega]
      exact hag₁
  · rw [if_neg h₃, if_neg (mt hgt.mp h₃)]
    refine ⟨st₁, rfl, hsize₁, hinv₁, ?_⟩
    rw [hn] at h₃
    rw [hsize₁, show st.size.toNat = max st.size.toNat (off.toNat + n.toNat) by omega]
    exact hag₁

/--
**log の枠を越える loop。** 範囲のどの block も割り当て済みで、device の log の header にまだなければ、
loop は一回ごとに header を一つ伸ばす。header が `log.size - 1` に届いてからの `log_write` は panic する。
-/
theorem writeiLoop_overflows_log (src : List Nat) (n : Nat) (st : RwSys) (tot off : Nat)
    (hinv : FileInv sb st) (hmap : ∀ j < n - tot, addrOf st ((off + j) / BSIZE) ≠ 0)
    (hend : off + (n - tot) ≤ MAXFILE * BSIZE)
    (hnew : ∀ j < n - tot, addrOf st ((off + j) / BSIZE) ∉ (st.logs.logOf dev).lh)
    (hsize : (st.logs.logOf dev).size = LOGSIZE) (hout : 1 ≤ (st.logs.logOf dev).outstanding)
    (hlen : (st.logs.logOf dev).lh.length < LOGSIZE)
    (hfull : LOGSIZE ≤ (st.logs.logOf dev).lh.length + spanned off (n - tot)) :
    writeiLoop sb dev src n st tot off = .error (.panic "too big a transaction") := by
  -- 帰納法は loop の回数について。一回ごとに header が一つ伸び、触る block が一つ減る
  fun_induction writeiLoop sb dev src n st tot off with
  | case1 st tot off h ih =>
    obtain ⟨m, hm⟩ : ∃ m, min (n - tot) (BSIZE - off % BSIZE) = m := ⟨_, rfl⟩
    have hm0 : 0 < m := hm ▸ chunk_pos off h
    have hmle : m ≤ BSIZE - off % BSIZE := hm ▸ Nat.min_le_right _ _
    have hmn : m ≤ n - tot := hm ▸ Nat.min_le_left _ _
    have hs : spanned off (n - tot) = spanned (off + m) (n - (tot + m)) + 1 := by
      rw [spanned_step (by omega), hm, Nat.sub_sub]
    have hbn : off / BSIZE < MAXFILE := div_lt_MAXFILE (by omega)
    have ha : addrOf st (off / BSIZE) ≠ 0 := by simpa using hmap 0 (by omega)
    rw [bmap_of_mapped hbn ha, ok_bind]
    dsimp only
    rw [hm] at ih ⊢
    have hLOG : LOGSIZE = 30 := rfl
    by_cases hfl : ((st.logs.logOf dev).size : Int) - 1 ≤ (st.logs.logOf dev).lh.length
    · -- header は `log.size - 1` に届いている
      rw [logWrite_full hfl, error_bind]
    · have hnew₀ : addrOf st (off / BSIZE) ∉ (st.logs.logOf dev).lh := by simpa using hnew 0 (by omega)
      rw [logWrite_new hlen (by omega) hout hnew₀, ok_bind]
      -- 中身の block を書いても番号は変わらない。log の header は `addrOf st (off / BSIZE)` の分だけ伸びる
      have haddr : ∀ (v : Nat → Nat) (L : LogSys) x,
          addrOf ⟨Function.update st.block (addrOf st (off / BSIZE)) v, st.size, st.addrs, L⟩ x = addrOf st x :=
        fun v _ x => addrOf_update_of_ne_indirect v (hinv.addr_ne_indirect _ hbn ha) x
      refine ih st (addrOf st (off / BSIZE)) _ ((hinv.write_data hbn ha _).setLogs _) (fun j hj => ?_) (by omega)
        (fun j hj => ?_) ?_ ?_ ?_ ?_
      · rw [haddr, Nat.add_assoc]
        exact hmap (m + j) (by omega)
      · -- 残りの範囲は次の block から始まるので、今の block とは番号が違う
        have hnext : off / BSIZE < (off + m + j) / BSIZE := by
          have : m = BSIZE - off % BSIZE := by omega
          unfold BSIZE at *
          omega
        have hj' := hmap (m + j) (by omega)
        rw [← Nat.add_assoc] at hj'
        dsimp only
        rw [haddr, LogSys.logOf_setLogOf, List.mem_append, List.mem_singleton, not_or]
        refine ⟨by rw [Nat.add_assoc]; exact hnew (m + j) (by omega), fun heq => ?_⟩
        have := hinv.addr_inj _ (div_lt_MAXFILE (by omega)) _ hbn hj' heq
        omega
      · dsimp only
        rw [LogSys.logOf_setLogOf]
        exact hsize
      · dsimp only
        rw [LogSys.logOf_setLogOf]
        exact hout
      · dsimp only
        rw [LogSys.logOf_setLogOf, List.length_append, List.length_singleton]
        rw [hsize] at hfl
        omega
      · dsimp only
        rw [LogSys.logOf_setLogOf, List.length_append, List.length_singleton]
        omega
  | case2 st tot off h =>
    rw [show n - tot = 0 by omega] at hfull
    simp only [spanned, if_true, Nat.add_zero] at hfull
    omega

/--
**`writei` は log の枠を越えると panic する。** 範囲のどの block も割り当て済みで、device の log が
transaction の中で空なら、`LOGSIZE` 個以上の block に触る書き込みは、`LOGSIZE - 1` 個の block を
`log_write` した後に "too big a transaction" の panic で止まり、`n` を返さない。
-/
theorem writei_overflows_log {inum : Nat} {st : RwSys} {src : List Nat} {off n : UInt32}
    (hinv : FileInv sb st) (hmap : ∀ i < st.size.toNat, addrOf st (i / BSIZE) ≠ 0)
    (hn : off.toNat + n.toNat ≤ st.size.toNat) (hlog : (st.logs.logOf dev).lh = [])
    (hsize : (st.logs.logOf dev).size = LOGSIZE) (hout : 1 ≤ (st.logs.logOf dev).outstanding)
    (hspan : LOGSIZE ≤ spanned off.toNat n.toNat) :
    writei sb dev inum st src off n = .error (.panic "too big a transaction") := by
  have hsz := hinv.size_le
  -- 範囲は `size` の中なので、入口の検査は通る
  obtain ⟨h₁, h₂, -⟩ := writei_checks_pass (show off.toNat ≤ st.size.toNat by omega)
    (show off.toNat + n.toNat ≤ MAXFILE * BSIZE by omega)
  rw [writei, if_neg h₁, if_neg h₂, writeiLoop_overflows_log src n.toNat st 0 off.toNat hinv
    (fun j hj => hmap _ (by omega)) (by omega) (fun j _ => by rw [hlog]; exact List.not_mem_nil) hsize hout
    (by rw [hlog]; decide) (by rw [hlog, Nat.sub_zero, List.length_nil, Nat.zero_add]; exact hspan), error_bind]

end write

/-! ## `readi` -/

section read

variable {sb : Superblock} {dev : Nat}

/--
**`readi` の loop。** 範囲 `[off, off + (n - tot))` の block が割り当て済みなら、loop は状態を変えずに、
その範囲の file の byte を `dst` の後ろに並べる。
-/
theorem readiLoop_spec (n : Nat) (st : RwSys) (tot off : Nat) (dst : List Nat)
    (hmap : ∀ j < n - tot, addrOf st ((off + j) / BSIZE) ≠ 0) (hend : off + (n - tot) ≤ MAXFILE * BSIZE) :
    readiLoop sb dev n st tot off dst =
      .ok (st, dst ++ (List.range (n - tot)).map fun j => content st (off + j)) := by
  -- 帰納法は loop の回数について。どの block も割り当て済みなので `bmap` は状態を変えない
  fun_induction readiLoop sb dev n st tot off dst with
  | case1 st tot off dst h ih =>
    obtain ⟨m, hm⟩ : ∃ m, min (n - tot) (BSIZE - off % BSIZE) = m := ⟨_, rfl⟩
    have hm0 : 0 < m := hm ▸ chunk_pos off h
    have hmle : m ≤ BSIZE - off % BSIZE := hm ▸ Nat.min_le_right _ _
    have hmn : m ≤ n - tot := hm ▸ Nat.min_le_left _ _
    have ha : addrOf st (off / BSIZE) ≠ 0 := by simpa using hmap 0 (by omega)
    rw [bmap_of_mapped (div_lt_MAXFILE (by omega)) ha, ok_bind]
    dsimp only
    rw [hm] at ih ⊢
    rw [ih st (addrOf st (off / BSIZE)) (fun j hj => by rw [Nat.add_assoc]; exact hmap (m + j) (by omega))
      (by omega)]
    -- 一回分の byte は file の byte である
    have hchunk : (List.range m).map (fun j => st.block (addrOf st (off / BSIZE)) (off % BSIZE + j)) =
        (List.range m).map fun j => content st (off + j) := by
      refine List.map_congr_left fun j hj => ?_
      obtain ⟨hdiv, hmod⟩ := chunk_div_mod hmle (List.mem_range.mp hj)
      rw [content, hdiv, hmod]
    rw [hchunk, List.append_assoc, show n - tot = m + (n - (tot + m)) by omega, List.range_add, List.map_append,
      List.map_map]
    simp only [Function.comp_def, Nat.add_assoc]
  | case2 st tot off dst h =>
    rw [show n - tot = 0 by omega, List.range_zero, List.map_nil, List.append_nil]
    rfl

/-- **`readi` は byte の列の `readi` を実装し、状態を変えない。** -/
theorem readi_refines {st : RwSys} {D : Nat → Nat} (hinv : FileInv sb st) (hag : Agrees st st.size.toNat D)
    (off n : UInt32) : readi sb dev st off n = .ok (st, Xv6.readi st.size D off n) := by
  unfold readi Xv6.readi
  by_cases h₁ : off > st.size ∨ off + n < off
  · rw [if_pos h₁, if_pos h₁]
  rw [if_neg h₁, if_neg h₁]
  dsimp only
  rw [not_or] at h₁
  have hadd := toNat_add_of_not_lt h₁.2
  have hoff : off.toNat ≤ st.size.toNat := Nat.not_lt.mp (UInt32.lt_iff_toNat_lt.not.mp h₁.1)
  -- 末尾で切った長さは file の中に収まる
  generalize hN : (if off + n > st.size then st.size - off else n) = N
  have hlen : off.toNat + N.toNat ≤ st.size.toNat := by
    rw [← hN]
    split_ifs with h
    · rw [UInt32.toNat_sub_of_le _ _ (UInt32.le_iff_toNat_le.mpr hoff)]
      omega
    · rw [gt_iff_lt, UInt32.lt_iff_toNat_lt, hadd] at h
      omega
  have hsz := hinv.size_le
  rw [readiLoop_spec _ _ _ _ _ (fun j hj => (hag _ (by omega)).1) (by omega), ok_bind, Nat.sub_zero,
    List.nil_append]
  have hbytes : (List.range N.toNat).map (fun j => content st (off.toNat + j)) =
      (List.range N.toNat).map fun j => D (off.toNat + j) :=
    List.map_congr_left fun j hj => (hag _ (by have := List.mem_range.mp hj; omega)).2
  rw [hbytes]
  rfl

end read

/-! ## 書いてから読む -/

section roundTrip

variable {sb : Superblock} {dev : Nat}

/-- 入口の検査を通る書き込みでは、byte の列の `writei` は `n` を返し、範囲を上書きする。 -/
theorem flat_writei_of_le {size off n : UInt32} (hoff : off ≤ size) (hn : off.toNat + n.toNat ≤ MAXFILE * BSIZE)
    (data : Nat → Nat) (src : List Nat) :
    Xv6.writei size data src off n = ((n.toNat : Int), if n > 0 ∧ off + n > size then off + n else size,
      fun i => if off.toNat ≤ i ∧ i < off.toNat + n.toNat then src.getD (i - off.toNat) 0 else data i) := by
  obtain ⟨h₁, h₂, -⟩ := writei_checks_pass (UInt32.le_iff_toNat_le.mp hoff) hn
  rw [Xv6.writei, if_neg h₁, if_neg h₂]

/-- 書いた後の `size` は、前の `size` と書いた範囲の終わりの大きい方である。 -/
theorem writei_size_toNat {size off n : UInt32} (hoff : off.toNat ≤ size.toNat)
    (hadd : (off + n).toNat = off.toNat + n.toNat) :
    (if n > 0 ∧ off + n > size then off + n else size).toNat = max size.toNat (off.toNat + n.toNat) := by
  have hn : n > 0 ↔ 0 < n.toNat := by rw [gt_iff_lt, UInt32.lt_iff_toNat_lt, UInt32.toNat_zero]
  split_ifs with h
  · rw [hn, gt_iff_lt, UInt32.lt_iff_toNat_lt, hadd] at h
    rw [hadd]
    omega
  · rw [hn, gt_iff_lt, UInt32.lt_iff_toNat_lt, hadd] at h
    omega

/-- 入口の検査を通る読み出しでは、byte の列の `readi` は `min n (size - off)` byte を読む。 -/
theorem flat_readi_of_not {size off n : UInt32} (h : ¬ (off > size ∨ off + n < off)) (data : Nat → Nat) :
    Xv6.readi size data off n = (((min n.toNat (size.toNat - off.toNat) : Nat) : Int),
      (List.range (min n.toNat (size.toNat - off.toNat))).map fun i => data (off.toNat + i)) := by
  have hadd := toNat_add_of_not_lt (not_or.mp h).2
  have hoff : off.toNat ≤ size.toNat := Nat.not_lt.mp (UInt32.lt_iff_toNat_lt.not.mp (not_or.mp h).1)
  -- 末尾で切った長さ
  have hlen : (if off + n > size then size - off else n).toNat = min n.toNat (size.toNat - off.toNat) := by
    split_ifs with h'
    · rw [gt_iff_lt, UInt32.lt_iff_toNat_lt, hadd] at h'
      rw [UInt32.toNat_sub_of_le _ _ (UInt32.le_iff_toNat_le.mpr hoff)]
      omega
    · rw [gt_iff_lt, UInt32.lt_iff_toNat_lt, hadd] at h'
      omega
  rw [Xv6.readi, if_neg h]
  dsimp only
  rw [hlen]

/--
二つの log の header にある block の数。`log_write` は buffer に `B_DIRTY` を立て、commit まで
buffer cache はそれを手放さないので、これだけの buffer が `bget` の使い回しの対象から外れている。
-/
def pinnedBufs (s : LogSys) : Nat := s.log.lh.length + s.loop_log.lh.length

theorem length_lh_logOf_le (s : LogSys) (dev : Nat) : (s.logOf dev).lh.length ≤ pinnedBufs s := by
  unfold LogSys.logOf pinnedBufs
  split <;> omega

end roundTrip

/-! ## mkfs した root disk の file -/

/-- mkfs の後の log で `begin_op` を一つ呼んだところ。どちらの log も transaction の中で、header は空である。 -/
def oneOp : LogSys :=
  { mkfsLog with log := mkfsLog.log.addOutstanding 1, loop_log := mkfsLog.loop_log.addOutstanding 1 }

example : beginOp mkfsLog = .ok oneOp := rfl

/-- root disk の bitmap block に mkfs の `balloc(used)` が書いた bitmap があれば、先頭 `used` block が使用中である。 -/
theorem usedPrefix_mkfs {d : Nat → Nat → Nat} {used : Nat}
    (h : d (mkfsSuperblock false).bmapstart = mkfsBalloc used) : UsedPrefix (mkfsSuperblock false) d used :=
  usedPrefix_loop_image h

/-- 間接 block 100 の中身：`j < 18` 番目の番号は block `212 + j` である。 -/
def bigIndirect (i : Nat) : Nat := if i % 4 = 0 ∧ i / 4 < 18 then 212 + i / 4 else 0

/--
root disk の 30 block の file。block `bn` は `200 + bn` にある（直接 block 12 個と、間接 block 100 の中の
18 個）。先頭 300 block が使用中で、log は transaction の中で空である。
-/
def bigFile : RwSys where
  block := Function.update (Function.update (fun _ _ => 0) (mkfsSuperblock false).bmapstart (mkfsBalloc 300))
    100 bigIndirect
  size := 15360
  addrs := (List.range 12).map (200 + ·) ++ [100]
  logs := oneOp

theorem uintAt_bigIndirect (j : Nat) : Blocks.uintAt bigIndirect j = if j < 18 then 212 + j else 0 := by
  unfold Blocks.uintAt bigIndirect
  split_ifs <;> omega

theorem bigFile_block_indirect : bigFile.block 100 = bigIndirect := by
  simp only [bigFile, Function.update_self]

theorem addrOf_bigFile (bn : Nat) : addrOf bigFile bn = if bn < 30 then 200 + bn else 0 := by
  have h12 : NDIRECT = 12 := rfl
  by_cases hd : bn < NDIRECT
  · rw [addrOf_of_lt hd, if_pos (by omega)]
    have hd' : bn < 12 := h12 ▸ hd
    simp [bigFile, List.getD_eq_getElem?_getD, List.getElem?_append_left, hd']
  · have hind : Blocks.indirect bigFile.addrs = 100 := rfl
    rw [addrOf_of_le (Nat.le_of_not_lt hd) (by rw [hind]; decide), hind]
    rw [bigFile_block_indirect, uintAt_bigIndirect]
    split_ifs <;> omega

theorem usedPrefix_bigFile : UsedPrefix (mkfsSuperblock false) bigFile.block 300 :=
  usedPrefix_mkfs (by simp only [bigFile]; rw [Function.update_of_ne (by decide), Function.update_self])

/-- file が持つ block は、間接 block 100 と block `200, …, 229` である。 -/
theorem owned_bigFile {o : Nat} (ho : Owned bigFile o) : o = 100 ∨ ∃ bn < 30, o = 200 + bn := by
  obtain ⟨ho0, ⟨bn, -, rfl⟩ | rfl⟩ := ho
  · rw [addrOf_bigFile] at ho0 ⊢
    split_ifs at ho0 ⊢ with h
    · exact .inr ⟨bn, h, rfl⟩
    · exact absurd rfl ho0
  · exact .inl rfl

theorem bigFile_inv : FileInv (mkfsSuperblock false) bigFile := by
  have hp := usedPrefix_bigFile
  have hbm : (mkfsSuperblock true).bmapstart = 58 := rfl
  refine ⟨by decide, rfl, by decide, taken_of_usedPrefix hp (by decide),
    fun x hx => taken_of_usedPrefix hp (by rw [BBLOCK_root_sb hx]; decide), fun o ho => ?_, fun o ho x hx => ?_,
    fun x _ x' _ hz heq => ?_, fun x _ hz => ?_⟩
  · rcases owned_bigFile ho with rfl | ⟨bn, hbn, rfl⟩
    · exact taken_of_usedPrefix hp (by decide)
    · exact taken_of_usedPrefix hp (by omega)
  · rw [BBLOCK_root_sb hx, hbm]
    rcases owned_bigFile ho with rfl | ⟨bn, hbn, rfl⟩
    · decide
    · omega
  · rw [addrOf_bigFile] at hz heq
    rw [addrOf_bigFile] at heq
    split_ifs at hz heq <;> omega
  · have hind : Blocks.indirect bigFile.addrs = 100 := rfl
    rw [hind, addrOf_bigFile]
    rw [addrOf_bigFile] at hz
    split_ifs at hz ⊢ <;> omega

/--
`bigFile` で、root disk の log にはすでに block 3 と 4 が、loop device の log には block 7 が
記録されている状態。
-/
def busyFile : RwSys :=
  { bigFile with logs := { oneOp with log := { oneOp.log with lh := [3, 4] },
                                      loop_log := { oneOp.loop_log with lh := [7] } } }

end Rw

end Xv6
