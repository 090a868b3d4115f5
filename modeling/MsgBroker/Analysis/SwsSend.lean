import MsgBroker.Analysis.StreamSpec
import MsgBroker.Model.Sws

/-!
# What `mb_sws_send_all` writes

`mb_sws_send_raw` returns the number of the bytes it wrote as an `int`.
-/

set_option autoImplicit false

namespace MsgBroker.Analysis

open Lib Model

section Send

variable (t : Transport)

/-- INTERNAL: the loop equation of `mb_sws_send_raw` is that of a write loop where no call is asked
for less than what is left.  SRC: sws.c:146-167 -/
theorem rawLoop_eq_writeLoop (as : List (Answer ℕ)) (buf : List UInt8)
    (h : t = .sipc ∨ buf.length ≤ intMax) : Sws.rawLoop t as buf = writeLoop as buf := by
  induction as generalizing buf with
  | nil => cases buf <;> rfl
  | cons a as ih =>
    cases buf with
    | nil => rfl
    | cons b bs =>
      cases a with
      | more n =>
        have hasked : Sws.asked t (bs.length + 1) = bs.length + 1 := by
          cases t with
          | sipc => rfl
          | stls =>
            have hle : bs.length + 1 ≤ 2147483647 := by simpa [intMax] using h
            exact int32_eq (by omega) (by omega)
        have hpos : ¬ ((bs.length : ℤ) + 1 ≤ 0) := by omega
        have hmore : ((bs.length : ℤ) + 1).toNat - 1 = bs.length := by omega
        have hdrop : bs.drop (min n bs.length) = bs.drop n := by
          rw [List.drop_eq_drop_iff]
          omega
        have htake : bs.take (min n bs.length) = bs.take n := by
          rw [List.take_eq_take_iff]
          omega
        have hrest := ih (bs.drop n) (h.imp id fun hle => by
          rw [List.length_cons] at hle
          rw [List.length_drop]
          omega)
        simp only [Sws.rawLoop, writeLoop, hasked, hpos, if_false, hmore, hdrop, htake, hrest]
      | block => rfl
      | stop f => rfl

variable {n : ℕ} {buf : List UInt8} {c c' : Port}

/-- INTERNAL: between `INT_MAX` and `2 ^ 32` an `int` is negative. -/
theorem int32_of_gt (h : intMax < n) (hlt : n < 2 ^ 32) : int32 n = n - 2 ^ 32 := by
  unfold int32 intMax at *
  omega

/-- INTERNAL: a count that fits an `int` is returned as it is. -/
theorem sentRc_of_le (h : n ≤ intMax) : Sws.sentRc n = .ok n := by
  have hint : int32 n = n := int32_eq (by omega) (by unfold intMax at h; omega)
  unfold Sws.sentRc
  rw [hint, if_neg (by omega), if_neg (by omega), Int.toNat_natCast]

/-- INTERNAL: a count just above `INT_MAX` is taken for an error other than `EAGAIN`. -/
theorem sentRc_of_gt (h : intMax < n) (hlt : n + 11 < 2 ^ 32) :
    ∃ e, Sws.sentRc n = .error e ∧ e ≠ .EAGAIN := by
  unfold Sws.sentRc
  rw [int32_of_gt h (by omega), if_neg (by omega), if_pos (by omega)]
  exact ⟨_, rfl, nofun⟩

/-! ## The loop without its fuel -/

/-- INTERNAL: a call uses no answer twice. -/
theorem rawLoop_length_le (as : List (Answer ℕ)) (buf : List UInt8) :
    (Sws.rawLoop t as buf).2.2.length ≤ as.length := by
  induction as generalizing buf with
  | nil => cases buf <;> exact le_rfl
  | cons a as ih =>
    cases buf with
    | nil => exact le_rfl
    | cons b bs =>
      cases a with
      | more n =>
        unfold Sws.rawLoop
        split_ifs
        · exact Nat.le_succ _
        · exact (ih _).trans (Nat.le_succ _)
      | block => exact Nat.le_succ _
      | stop f => exact Nat.le_succ _

/-- INTERNAL: a call that writes something has used an answer. -/
theorem rawLoop_uses (as : List (Answer ℕ)) (hne : buf ≠ [])
    (h : (Sws.rawLoop t as buf).1 ≠ []) : (Sws.rawLoop t as buf).2.2.length < as.length := by
  cases buf with
  | nil => exact absurd rfl hne
  | cons b bs =>
    cases as with
    | nil => exact absurd rfl h
    | cons a as =>
      cases a with
      | more n =>
        unfold Sws.rawLoop at h ⊢
        split_ifs at h ⊢ with hasked
        · exact absurd rfl h
        · exact Nat.lt_succ_of_le (rawLoop_length_le t as _)
      | block => exact absurd rfl h
      | stop f => exact absurd rfl h

/-- INTERNAL: the loop around `mb_sws_send_raw` goes on only after an answer was used. -/
theorem sendRaw_uses (hne : buf ≠ [])
    (h : Sws.sendRaw t buf c = (.ok n, c')) : c'.wans.length < c.wans.length := by
  have huses := rawLoop_uses t c.wans hne
  have hdone : (Sws.rawLoop t c.wans buf).2.1 = .done → (Sws.rawLoop t c.wans buf).1 ≠ [] := by
    cases buf with
    | nil => exact absurd rfl hne
    | cons b bs =>
      rcases c.wans with - | ⟨a | _ | _, as⟩
      · exact nofun
      · unfold Sws.rawLoop
        split_ifs
        · exact nofun
        · exact fun _ => List.cons_ne_nil _ _
      · exact nofun
      · exact nofun
  unfold Sws.sendRaw at h
  rcases hl : Sws.rawLoop t c.wans buf with ⟨sent, ending, wans⟩
  rw [hl] at h huses hdone
  cases ending with
  | done =>
    obtain ⟨-, rfl⟩ := Prod.mk.inj h
    exact huses (hdone rfl)
  | block =>
    obtain ⟨hres, rfl⟩ := Prod.mk.inj h
    split_ifs at hres with hsent
    exact huses (List.length_pos_iff.mp hsent)
  | stop code => cases h

theorem hard_ne_again (code : ℕ) : t.hard code ≠ .EAGAIN := by
  cases t <;> nofun

/-- INTERNAL: a hard error ends the call. -/
theorem sendRaw_of_stop {sent : List UInt8} {code : ℕ} {wans : List (Answer ℕ)}
    (h : Sws.rawLoop t c.wans buf = (sent, .stop code, wans)) :
    ∃ c', Sws.sendRaw t buf c = (.error (t.hard code), c') := by
  unfold Sws.sendRaw
  rw [h]
  exact ⟨_, rfl⟩

/-- INTERNAL: a refusal at once writes nothing. -/
theorem sendRaw_of_block (wans : List (Answer ℕ))
    (h : Sws.rawLoop t c.wans buf = ([], .block, wans)) :
    Sws.sendRaw t buf c = (.error .EAGAIN, { c with wans := wans }) := by
  unfold Sws.sendRaw
  rw [h]
  simp

/-- INTERNAL: the loop returns, with any fuel over the number of the answers: each round that
goes on uses one, and without any the next call blocks. -/
theorem exists_sendLoop (buf : List UInt8) (pos : ℕ) (c : Port) :
    ∃ r, ∀ fuel, c.wans.length < fuel → Sws.sendLoop t buf fuel pos c = some r := by
  induction hn : c.wans.length using Nat.strong_induction_on generalizing pos c with
  | _ n ih =>
    by_cases hpos : pos < buf.length
    · rcases hs : Sws.sendRaw t (buf.drop pos) c with ⟨e | k, c'⟩
      · refine ⟨(.err e, pos, c'), fun fuel hfuel => ?_⟩
        obtain ⟨fuel, rfl⟩ := Nat.exists_eq_add_one.mpr (Nat.zero_lt_of_lt hfuel)
        rw [Sws.sendLoop, if_pos hpos, hs]
      · have huses := sendRaw_uses t (by simpa using hpos) hs
        obtain ⟨r, hr⟩ := ih _ (by omega) (pos + k) c' rfl
        refine ⟨r, fun fuel hfuel => ?_⟩
        obtain ⟨fuel, rfl⟩ := Nat.exists_eq_add_one.mpr (Nat.zero_lt_of_lt hfuel)
        rw [Sws.sendLoop, if_pos hpos, hs]
        exact hr fuel (by omega)
    · refine ⟨(.ok, pos, c), fun fuel hfuel => ?_⟩
      obtain ⟨fuel, rfl⟩ := Nat.exists_eq_add_one.mpr (Nat.zero_lt_of_lt hfuel)
      rw [Sws.sendLoop, if_neg hpos]

/-- INTERNAL: **the loop equation of `mb_sws_send_all`**, which has no fuel.
SRC: sws.c:176-181, 387-399 -/
theorem sendAll_eq (buf : List UInt8) (pos : ℕ) (c : Port) :
    Sws.sendAll t buf pos c =
      if pos < buf.length then
        match Sws.sendRaw t (buf.drop pos) c with
        | (.ok n, c') => Sws.sendAll t buf (pos + n) c'
        | (.error e, c') => (.err e, pos, c')
      else (.ok, pos, c) := by
  unfold Sws.sendAll
  rw [Sws.sendLoop]
  split_ifs with hpos
  · rcases hs : Sws.sendRaw t (buf.drop pos) c with ⟨_ | n, c'⟩
    · rfl
    · have huses := sendRaw_uses t (by simpa using hpos) hs
      obtain ⟨r, hr⟩ := exists_sendLoop t buf (pos + n) c'
      dsimp only
      rw [hr _ (by omega), hr _ (Nat.lt_succ_self _)]
      rfl
  · rfl

/-- INTERNAL: nothing is read meanwhile. -/
theorem sendAll_rans (buf : List UInt8) (pos : ℕ) (c : Port) :
    (Sws.sendAll t buf pos c).2.2.rans = c.rans := by
  induction hn : c.wans.length using Nat.strong_induction_on generalizing pos c with
  | _ n ih =>
    have hsend : (Sws.sendRaw t (buf.drop pos) c).2.rans = c.rans := by
      unfold Sws.sendRaw
      rcases Sws.rawLoop t c.wans (buf.drop pos) with ⟨sent, ending, wans⟩
      cases ending <;> rfl
    rw [sendAll_eq]
    split_ifs with hpos
    · rcases hs : Sws.sendRaw t (buf.drop pos) c with ⟨_ | k, c'⟩
      · rw [hs] at hsend
        exact hsend
      · have huses := sendRaw_uses t (by simpa using hpos) hs
        rw [hs] at hsend
        exact (ih _ (by omega) _ c' rfl).trans hsend
    · rfl

/-! ## Connections that do not fail -/

/-- INTERNAL: where the loops agree, `mb_sws_send_raw` is `mb_sipc_send_fd` but for the `int`. -/
theorem sendRaw_of_sendFd {res : Except Errno ℕ}
    (h : t = .sipc ∨ buf.length ≤ intMax) (hs : Stream.sendFd t buf c = (res, c')) :
    ∃ res', Sws.sendRaw t buf c = (res', c') ∧ (∀ e, res = .error e → res' = .error e) ∧
      ∀ n, res = .ok n → n ≤ buf.length ∧ res' = Sws.sentRc n := by
  obtain ⟨rest, hbuf, -⟩ := writeLoop_split c.wans buf
  have hle : (writeLoop c.wans buf).1.length ≤ buf.length :=
    (congrArg List.length hbuf).symm ▸ (List.sublist_append_left _ rest).length_le
  unfold Stream.sendFd at hs
  unfold Sws.sendRaw
  rw [rawLoop_eq_writeLoop t c.wans buf h]
  rcases hl : writeLoop c.wans buf with ⟨sent, ending, wans⟩
  rw [hl] at hs hle
  cases ending with
  | done =>
    obtain ⟨rfl, rfl⟩ := Prod.mk.inj hs
    refine ⟨_, rfl, nofun, ?_⟩
    rintro n ⟨⟩
    exact ⟨hle, rfl⟩
  | block =>
    obtain ⟨hres, rfl⟩ := Prod.mk.inj hs
    refine ⟨_, rfl, ?_, ?_⟩
    · rintro e rfl
      split_ifs at hres ⊢
      exact hres
    · rintro n rfl
      split_ifs at hres ⊢
      rw [← Except.ok.inj hres]
      exact ⟨hle, rfl⟩
  | stop code =>
    obtain ⟨rfl, rfl⟩ := Prod.mk.inj hs
    exact ⟨_, rfl, fun e he => he, nofun⟩

/-- INTERNAL: for a buffer that fits an `int` the two are the same. -/
theorem sendRaw_short (hle : buf.length ≤ intMax) :
    Sws.sendRaw t buf c = Stream.sendFd t buf c := by
  rcases hs : Stream.sendFd t buf c with ⟨_ | n, c'⟩
  · obtain ⟨res, hraw, herr, -⟩ := sendRaw_of_sendFd t (Or.inr hle) hs
    rw [hraw, herr _ rfl]
  · obtain ⟨res, hraw, -, hcount⟩ := sendRaw_of_sendFd t (Or.inr hle) hs
    obtain ⟨hn, hres⟩ := hcount n rfl
    rw [hraw, hres, sentRc_of_le (hn.trans hle)]

/-- INTERNAL: over TLS a buffer between `INT_MAX` and `2 ^ 32` bytes is asked for as a negative
number of bytes.  SRC: sws.c:148-155 -/
theorem sendRaw_negative (h : Calm c.wans) (hgt : intMax < buf.length)
    (hlt : buf.length < 2 ^ 32) :
    (∃ c', Sws.sendRaw .stls buf c = (.error .EAGAIN, c') ∧ Wrote c c' buf buf ∧
        room true c.wans = 0) ∨
      ∃ c', Sws.sendRaw .stls buf c = (.error .ECONNRESET, c') := by
  have hneg : Sws.asked .stls buf.length ≤ 0 := by
    show int32 _ ≤ 0
    rw [int32_of_gt hgt hlt]
    omega
  cases buf with
  | nil => cases hgt
  | cons b bs =>
    have hasked : Sws.asked .stls (bs.length + 1) ≤ 0 := hneg
    cases hw : c.wans with
    | nil =>
      left
      exact ⟨_, sendRaw_of_block _ [] (by rw [hw, Sws.rawLoop]), ⟨rfl, rfl, rfl, hw ▸ h⟩, rfl⟩
    | cons a as =>
      rw [hw] at h
      cases a with
      | more n =>
        right
        exact sendRaw_of_stop _ (by rw [hw, Sws.rawLoop, if_pos hasked])
      | block =>
        left
        exact ⟨_, sendRaw_of_block _ as (by rw [hw, Sws.rawLoop]), ⟨rfl, rfl, rfl, h.tail⟩, rfl⟩
      | stop f => exact (h (.stop f) List.mem_cons_self).elim

/-- INTERNAL: **one `mb_sws_send_raw`** on a connection that does not fail writes a part of the
buffer and says how much, writes nothing, or, for a buffer that does not fit an `int`, fails. -/
theorem sendRaw_calm (h : Calm c.wans) (hne : buf ≠ [])
    (hlt : buf.length + 11 < 2 ^ 32) :
    (∃ n c', Sws.sendRaw t buf c = (.ok n, c') ∧ Wrote c c' buf (buf.drop n) ∧
        (buf.length ≤ n ∧ buf.length ≤ room true c.wans ∨
          room true c.wans = n + room true c'.wans)) ∨
      (∃ c', Sws.sendRaw t buf c = (.error .EAGAIN, c') ∧ Wrote c c' buf buf ∧
        room true c.wans = 0) ∨
      (intMax < buf.length ∧ (t = .stls ∨ intMax < room true c.wans) ∧
        ∃ e c', Sws.sendRaw t buf c = (.error e, c') ∧ e ≠ .EAGAIN) := by
  by_cases hcap : t = .sipc ∨ buf.length ≤ intMax
  · rcases sendFd_calm t buf c h hne with ⟨n, c', hs, -, hn, hw, hroom⟩ | ⟨c', hs, hw, hroom⟩
    · obtain ⟨res, hraw, -, hcount⟩ := sendRaw_of_sendFd t hcap hs
      rw [hraw, (hcount n rfl).2]
      by_cases hle : n ≤ intMax
      · rw [sentRc_of_le hle]
        exact Or.inl ⟨n, c', rfl, hw, hroom⟩
      · -- the bytes are gone, but their number is not what is returned
        obtain ⟨e, he, hne⟩ := sentRc_of_gt (Nat.lt_of_not_le hle) (by omega)
        refine Or.inr (Or.inr ⟨by omega, Or.inr (by omega), e, c', by rw [he], hne⟩)
    · obtain ⟨res, hraw, herr, -⟩ := sendRaw_of_sendFd t hcap hs
      rw [hraw, herr _ rfl]
      exact Or.inr (Or.inl ⟨c', rfl, hw, hroom⟩)
  · obtain ⟨hsipc, hgt⟩ := not_or.mp hcap
    cases t with
    | sipc => exact absurd rfl hsipc
    | stls =>
      rcases sendRaw_negative h (Nat.lt_of_not_le hgt) (by omega) with hagain | ⟨c', hs⟩
      · exact Or.inr (Or.inl hagain)
      · exact Or.inr (Or.inr ⟨Nat.lt_of_not_le hgt, Or.inl rfl, _, c', hs, nofun⟩)

/-- INTERNAL: **`mb_sws_send_all`** on a connection that does not fail: it writes what the connection
has room for, or fails for good on a buffer that does not fit an `int`. -/
theorem sendAll_calm (hlt : buf.length + 11 < 2 ^ 32) (pos : ℕ) (c : Port)
    (h : Calm c.wans) :
    ∃ rc pos' c', Sws.sendAll t buf pos c = (rc, pos', c') ∧
      (Wrote c c' (buf.drop pos) (buf.drop pos') ∧
          (rc = .ok ∧ buf.length ≤ pos' ∧ buf.length ≤ pos + room true c.wans ∨
            rc = .again ∧ pos' < buf.length ∧ pos' = pos + room true c.wans) ∨
        intMax < buf.length - pos ∧ (t = .stls ∨ intMax < room true c.wans) ∧ rc ≠ .ok ∧
          rc ≠ .again) := by
  induction hn : c.wans.length using Nat.strong_induction_on generalizing pos c with
  | _ k ih =>
    rw [sendAll_eq]
    split_ifs with hpos
    · have hne : buf.drop pos ≠ [] := by simp [hpos]
      have hlen : (buf.drop pos).length = buf.length - pos := List.length_drop
      rcases sendRaw_calm t h hne (by omega) with
        ⟨n, c', hs, hw, hroom⟩ | ⟨c', hs, hw, hroom⟩ | ⟨hgt, hroom, e, c', hs, he⟩
      · have huses := sendRaw_uses t hne hs
        rw [List.drop_drop] at hw
        rw [hs]
        obtain ⟨rc, pos', c'', hl, hrc⟩ := ih _ (hn ▸ huses) (pos + n) c' hw.calm rfl
        refine ⟨rc, pos', c'', hl, ?_⟩
        rcases hrc with ⟨hw', hrc⟩ | ⟨hgt, hroom', hne⟩
        · refine Or.inl ⟨hw.trans hw', ?_⟩
          rcases hrc with ⟨rfl, h1, h2⟩ | ⟨rfl, h1, h2⟩
          · exact Or.inl ⟨rfl, h1, by omega⟩
          · exact Or.inr ⟨rfl, h1, by omega⟩
        · exact Or.inr ⟨by omega, hroom'.imp id fun _ => by omega, hne⟩
      · rw [hs]
        exact ⟨.again, pos, c', rfl, Or.inl ⟨hw, Or.inr ⟨rfl, hpos, by omega⟩⟩⟩
      · rw [hs]
        exact ⟨.err e, pos, c', rfl, Or.inr ⟨by omega, hroom, nofun, fun h => he (Rc.err.inj h)⟩⟩
    · exact ⟨.ok, pos, c, rfl, Or.inl ⟨⟨rfl, rfl, rfl, h⟩, Or.inl ⟨rfl, by omega, by omega⟩⟩⟩

/-- INTERNAL: a buffer that fits an `int` is written as far as the connection has room. -/
theorem sendAll_short (hle : buf.length ≤ intMax) (pos : ℕ) (c : Port)
    (h : Calm c.wans) :
    ∃ rc pos' c', Sws.sendAll t buf pos c = (rc, pos', c') ∧
      Wrote c c' (buf.drop pos) (buf.drop pos') ∧
      (rc = .ok ∧ buf.length ≤ pos' ∧ buf.length ≤ pos + room true c.wans ∨
        rc = .again ∧ pos' < buf.length ∧ pos' = pos + room true c.wans) := by
  have hlt : buf.length + 11 < 2 ^ 32 := by
    unfold intMax at hle
    omega
  obtain ⟨rc, pos', c', hs, ⟨hw, hrc⟩ | ⟨hgt, -⟩⟩ := sendAll_calm t hlt pos c h
  · exact ⟨rc, pos', c', hs, hw, hrc⟩
  · omega

/-- How a loop over a buffer ended, in the terms of a writer that retries. -/
inductive Ends (t : Transport) (len : ℕ) : Ending ℕ × ℕ × List (Answer ℕ) → Rc × ℕ × Port → Prop
  | done (m pos : ℕ) (c : Port) : Ends t len (.done, m, c.wans) (.ok, pos, c)
  | block (pos : ℕ) (c : Port) : Ends t len (.block, len - pos, c.wans) (.again, pos, c)
  | stop (f m : ℕ) (as : List (Answer ℕ)) (pos : ℕ) (c : Port) :
      Ends t len (.stop f, m, as) (.err (t.hard f), pos, c)

/-- INTERNAL: **what `mb_sws_send_all` comes to** is decided by the bytes left and the answers of the
connection, if their number fits an `int`.  SRC: sws.c:171-183 -/
theorem sendAll_ends (buf : List UInt8) (pos : ℕ) (c : Port) (hle : buf.length - pos ≤ intMax) :
    Ends t buf.length (retry true (buf.length - pos) c.wans) (Sws.sendAll t buf pos c) := by
  induction hn : c.wans.length using Nat.strong_induction_on generalizing pos c with
  | _ k ih =>
    rw [sendAll_eq]
    split_ifs with hpos
    · have hne : buf.drop pos ≠ [] := by simp [hpos]
      have hlen : (buf.drop pos).length = buf.length - pos := List.length_drop
      have huses : ∀ n c', Sws.sendRaw t (buf.drop pos) c = (.ok n, c') →
          c'.wans.length < c.wans.length := fun n c' => sendRaw_uses t hne
      have hend := retry_of_done c.wans (buf.drop pos) true
      have hstop := @retry_of_stop _ _ c.wans (buf.drop pos) true
      have hblock := retry_of_block c.wans (buf.drop pos)
      have hfresh := retry_fresh_of_written c.wans (buf.drop pos)
      have hrefused := retry_of_refused c.wans (buf.drop pos)
      obtain ⟨rest, hbuf, hdone⟩ := writeLoop_split c.wans (buf.drop pos)
      rw [sendRaw_short t (by omega)] at huses ⊢
      unfold Stream.sendFd at huses ⊢
      rw [← hlen]
      rcases hw : writeLoop c.wans (buf.drop pos) with ⟨sent, ending, wans⟩
      rw [hw] at huses hend hstop hblock hfresh hrefused hbuf hdone
      cases ending with
      | done =>
        have hrest : rest = [] := hdone.mp rfl
        have hall := congrArg List.length hbuf
        rw [hrest, List.append_nil, hlen] at hall
        dsimp only at hall ⊢
        rw [hend rfl, sendAll_eq, if_neg (by omega)]
        exact .done 0 _ { c with tx := c.tx ++ sent, wans := wans }
      | block =>
        dsimp only at *
        split_ifs with hsent
        · rw [hfresh (List.length_pos_iff.mp hsent), hblock rfl, hlen, Nat.sub_sub]
          have hless := huses sent.length { c with tx := c.tx ++ sent, wans := wans }
            (by rw [if_pos hsent])
          exact ih _ (hn ▸ hless) _ { c with tx := c.tx ++ sent, wans := wans } (by omega) rfl
        · rw [hrefused (List.length_eq_zero_iff.mp (by omega)) rfl, hlen]
          exact .block pos { c with tx := c.tx ++ sent, wans := wans }
      | stop code =>
        obtain ⟨m, hm⟩ := hstop rfl
        rw [hm]
        exact .stop code m wans pos _
    · have hzero : buf.length - pos = 0 := by omega
      rw [hzero, retry_zero]
      exact .done 0 pos c

/-- INTERNAL: **when `mb_sws_send_all` returns `-EAGAIN`**: exactly where the connection refuses a
call before the buffer is written. -/
theorem sendAll_again_iff (hle : buf.length ≤ intMax) (pos : ℕ) (c : Port) :
    (Sws.sendAll t buf pos c).1 = .again ↔ (retry true (buf.length - pos) c.wans).1 = .block := by
  have hends := sendAll_ends t buf pos c (by omega)
  generalize retry true (buf.length - pos) c.wans = r at hends
  generalize Sws.sendAll t buf pos c = s at hends
  cases hends with
  | done => exact iff_of_false nofun nofun
  | block => exact iff_of_true rfl rfl
  | stop f => exact iff_of_false (fun h => hard_ne_again t f (Rc.err.inj h)) nofun

end Send

end MsgBroker.Analysis
