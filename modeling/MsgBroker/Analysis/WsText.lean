import MsgBroker.Model.WsHandshake

/-!
# Heads and lines

The request and the response of the WebSocket handshake are heads: lines that end in CR LF, with an
empty line behind them.
-/

set_option autoImplicit false

namespace MsgBroker.Analysis.WsHandshake

open Lib Model

/-! ## Heads -/

section Heads

/-- The bytes a sequence of reads gives. -/
def bytesOf : List HttpRead → List UInt8
  | [] => []
  | .byte b :: rs => b :: bytesOf rs
  | .wait :: rs => bytesOf rs
  | .stop :: rs => bytesOf rs

/-- A head: it ends at its first empty line. -/
structure Head (head : List UInt8) : Prop where
  ends : headEnd <:+ head
  first : ∀ p, p <+: head → headEnd <:+ p → p = head

variable {head : List UInt8} {rs : List HttpRead}

/-- INTERNAL: the loop goes on to the end of the head, or of the buffer. -/
theorem readHead_append (hhead : Head head)
    (atLimit : List UInt8 → Option (List UInt8)) (hstop : .stop ∉ rs)
    {buf : List UInt8} (hlt : buf.length < head.length) (hroom : buf.length ≤ 4095)
    (hbytes : head <+: buf ++ bytesOf rs) :
    readHead atLimit rs buf =
      if head.length ≤ 4095 then some head else atLimit (head.take 4095) := by
  induction rs generalizing buf with
  | nil =>
    have hle := hbytes.length_le
    simp only [bytesOf, List.append_nil] at hle
    omega
  | cons r rs ih =>
    have hstop' : .stop ∉ rs := fun h => hstop (List.mem_cons_of_mem _ h)
    by_cases hspace : buf.length < 4095
    · cases r with
      | stop => exact absurd List.mem_cons_self hstop
      | wait =>
        rw [readHead, if_pos hspace]
        exact ih hstop' hlt hroom hbytes
      | byte b =>
        have hsplit : buf ++ bytesOf (.byte b :: rs) = (buf ++ [b]) ++ bytesOf rs := by
          rw [List.append_assoc]
          rfl
        rw [hsplit] at hbytes
        have hlong : (buf ++ [b]).length = buf.length + 1 := by
          rw [List.length_append, List.length_singleton]
        have hlen : (buf ++ [b]).length ≤ head.length := by omega
        have hpre : buf ++ [b] <+: head :=
          List.prefix_of_prefix_length_le (List.prefix_append _ _) hbytes hlen
        rw [readHead, if_pos hspace]
        split
        · rename_i hend
          have heq := hhead.first _ hpre hend
          rw [heq, if_pos (by rw [← heq]; omega)]
        · rename_i hend
          refine ih hstop' (lt_of_le_of_ne hlen fun heq => hend ?_) (by omega) hbytes
          rw [hpre.eq_of_length heq]
          exact hhead.ends
    · -- The buffer is full before the head ends.
      have hbuf : buf <+: head :=
        List.prefix_of_prefix_length_le (List.prefix_append _ _) hbytes hlt.le
      have hcut := List.prefix_iff_eq_take.mp hbuf
      rw [show buf.length = 4095 by omega] at hcut
      unfold readHead
      rw [if_neg hspace, if_neg (by omega), ← hcut]

/-- INTERNAL: **a head that arrives is read**, in whatever pieces it comes. -/
theorem readHead_eq (hhead : Head head)
    (atLimit : List UInt8 → Option (List UInt8)) (hstop : .stop ∉ rs)
    (hbytes : head <+: bytesOf rs) :
    readHead atLimit rs [] =
      if head.length ≤ 4095 then some head else atLimit (head.take 4095) := by
  have hne : 4 ≤ head.length := hhead.ends.length_le
  exact readHead_append hhead atLimit hstop (by rw [List.length_nil]; omega) (Nat.zero_le _) hbytes

/-- INTERNAL: the server reads a head that fits its buffer.  SRC: bws.c:189-217 -/
theorem wsReadHttp_eq (hhead : Head head) (hfits : head.length ≤ 4095)
    (hstop : .stop ∉ rs) (hbytes : head <+: bytesOf rs) :
    wsReadHttp rs = some head := by
  rw [wsReadHttp, readHead_eq hhead _ hstop hbytes, if_pos hfits]

/-- INTERNAL: the client reads a head as far as it fits its buffer.  SRC: cws.c:148-170 -/
theorem cwsReadHttp_eq (hhead : Head head)
    (hstop : .stop ∉ rs) (hbytes : head <+: bytesOf rs) :
    cwsReadHttp rs = some (head.take 4095) := by
  rw [cwsReadHttp, readHead_eq hhead _ hstop hbytes]
  split_ifs with hfits
  · rw [List.take_of_length_le hfits]
  · rfl

theorem writeHttp_done {ws : List (Answer Unit)} {data : List UInt8}
    (h : (writeHttp ws data).2 = true) : (writeHttp ws data).1 = data := by
  induction ws, data using writeHttp.induct with
  | case1 ws => simp [writeHttp]
  | case2 b bs => simp [writeHttp] at h
  | case3 n ws b bs ih =>
    simp only [writeHttp] at h ⊢
    rw [ih h, List.take_append_drop]
  | case4 ws b bs ih =>
    simp only [writeHttp] at h ⊢
    exact ih h
  | case5 x ws b bs => simp [writeHttp] at h

theorem bytesOf_map_byte (bytes : List UInt8) : bytesOf (bytes.map .byte) = bytes := by
  induction bytes with
  | nil => rfl
  | cons b bytes ih => rw [List.map_cons, bytesOf, ih]

theorem prefix_bytesOf_map_byte (bytes : List UInt8) : bytes <+: bytesOf (bytes.map .byte) :=
  ⟨[], by rw [List.append_nil, bytesOf_map_byte]⟩

theorem stop_notMem_map_byte (bytes : List UInt8) : HttpRead.stop ∉ bytes.map .byte := by
  simp

theorem writeHttp_more {data : List UInt8} {n : ℕ} (h : data.length ≤ n + 1) :
    writeHttp [.more n] data = (data, true) := by
  cases data with
  | nil => rfl
  | cons b bs =>
    have hle : bs.length ≤ n := Nat.le_of_succ_le_succ h
    rw [writeHttp, List.drop_eq_nil_of_le hle, List.take_of_length_le hle, writeHttp,
      List.append_nil]

end Heads

/-! ## Texts of lines -/

section Lines

/-- No byte is CR or NUL. -/
def Plain (l : List UInt8) : Prop := ∀ b ∈ l, b ≠ 13 ∧ b ≠ 0

variable {l : List UInt8} {lines : List (List UInt8)}

theorem Plain.of_all (h : (l.all fun b => b != 13 && b != 0) = true) :
    Plain l := by
  intro b hb
  simpa using List.all_eq_true.mp h b hb

theorem Plain.noCr (h : Plain l) : 13 ∉ l := fun hmem => (h 13 hmem).1 rfl

/-- A line of a text. -/
structure Line (l : List UInt8) : Prop where
  ne : l ≠ []
  plain : Plain l

theorem Line.of_all
    (h : (!l.isEmpty && l.all fun b => b != 13 && b != 0) = true) : Line l := by
  obtain ⟨hne, hall⟩ := Bool.and_eq_true_iff.mp h
  exact ⟨by simpa using hne, .of_all hall⟩

theorem Line.append {l' : List UInt8} (h : Line l) (h' : Plain l') : Line (l ++ l') :=
  ⟨List.append_ne_nil_of_left_ne_nil h.ne _, List.forall_mem_append.mpr ⟨h.plain, h'⟩⟩

/-- Lines, each with its end, and an empty line. -/
def httpText (lines : List (List UInt8)) : List UInt8 := lines.flatMap (· ++ crlf) ++ crlf

theorem httpText_cons (l : List UInt8) (lines : List (List UInt8)) :
    httpText (l :: lines) = l ++ 13 :: 10 :: httpText lines := by
  simp [httpText, crlf]

theorem httpText_noNul (h : ∀ l ∈ lines, Line l) :
    ∀ b ∈ httpText lines, b ≠ 0 := by
  have hcrlf : ∀ b ∈ crlf, b ≠ 0 := by simp [crlf]
  refine List.forall_mem_append.mpr ⟨fun b hb => ?_, hcrlf⟩
  obtain ⟨l, hl, hb⟩ := List.mem_flatMap.mp hb
  exact (List.mem_append.mp hb).elim (fun hb => ((h l hl).plain b hb).2) (hcrlf b)

/-- INTERNAL: a text that starts with CR is not found before the first CR. -/
theorem FirstAt.skip_noCr {needle s a r : List UInt8} (hl : 13 ∉ l)
    (h : FirstAt (13 :: needle) s a r) : FirstAt (13 :: needle) (l ++ s) (l ++ a) r := by
  induction l with
  | nil => exact h
  | cons d l ih =>
    obtain ⟨hd, hl⟩ := not_or.mp fun hmem => hl (List.mem_cons.mpr hmem)
    exact (firstAt_cons_iff fun hp => hd (List.cons_prefix_cons.mp hp).1).mpr ⟨_, rfl, ih hl⟩

/-- INTERNAL: the empty line is the first one: a line has bytes, and none of them is CR. -/
theorem exists_firstAt_headEnd
    (h : ∀ x ∈ l :: lines, Line x) :
    ∃ a, FirstAt headEnd (httpText (l :: lines)) a headEnd := by
  induction lines generalizing l with
  | nil =>
    have hhere : FirstAt headEnd headEnd [] headEnd :=
      (firstAt_of_here (List.prefix_refl _)).mpr ⟨rfl, rfl⟩
    rw [httpText_cons]
    exact ⟨_, FirstAt.skip_noCr (h l List.mem_cons_self).plain.noCr hhere⟩
  | cons l' lines ih =>
    obtain ⟨a, ha⟩ := ih fun x hx => h x (List.mem_cons_of_mem _ hx)
    have hl' := h l' (List.mem_cons_of_mem _ List.mem_cons_self)
    -- behind the end of the first line there is no second CR
    have hnext : ¬ headEnd <+: 13 :: 10 :: httpText (l' :: lines) := by
      intro hp
      rw [httpText_cons] at hp
      cases l' with
      | nil => exact hl'.ne rfl
      | cons d l' =>
        have hd := (hl'.plain d List.mem_cons_self).1
        simp [headEnd, hd.symm] at hp
    have hlf : ¬ headEnd <+: 10 :: httpText (l' :: lines) := by simp [headEnd]
    rw [httpText_cons]
    exact ⟨_, FirstAt.skip_noCr (h l List.mem_cons_self).plain.noCr ((firstAt_cons_iff hnext).mpr
      ⟨_, rfl, (firstAt_cons_iff hlf).mpr ⟨_, rfl, ha⟩⟩)⟩

/-- INTERNAL: a text of lines is a head. -/
theorem head_httpText
    (h : ∀ x ∈ l :: lines, Line x) : Head (httpText (l :: lines)) := by
  obtain ⟨a, ha⟩ := exists_firstAt_headEnd h
  refine ⟨⟨a, ha.split.symm⟩, ?_⟩
  rintro p hp ⟨q, rfl⟩
  refine hp.eq_of_length (Nat.le_antisymm hp.length_le ?_)
  obtain ⟨t, ht⟩ := hp
  have hle := ha.first q (headEnd ++ t) (by rw [← ht, List.append_assoc]) (List.prefix_append _ _)
  rw [ha.split, List.length_append, List.length_append]
  omega

/-- INTERNAL: a header is found in the first line that has its name. -/
theorem firstAt_header {name : List UInt8} (hcr : 13 ∉ name) (hlf : 10 ∉ name)
    {before : List (List UInt8)} (hbefore : ∀ l ∈ before, ¬ name <:+: l)
    (value : List UInt8) (after : List (List UInt8)) :
    FirstAt name (httpText (before ++ (name ++ value) :: after)) (before.flatMap (· ++ crlf))
      (name ++ (value ++ (crlf ++ httpText after))) := by
  induction before with
  | nil =>
    refine (firstAt_of_here ?_).mpr ⟨rfl, ?_⟩ <;>
      simp [httpText_cons, crlf, List.append_assoc]
  | cons l before ih =>
    have hl := hbefore l List.mem_cons_self
    have hnil : ¬ name <:+: [] := fun hi => hl (hi.trans List.nil_infix)
    have hskip := (FirstAt.skip hlf hnil (ih fun x hx =>
      hbefore x (List.mem_cons_of_mem _ hx))).skip hcr hl
    rw [List.cons_append, httpText_cons]
    simpa [crlf, List.append_assoc] using hskip

end Lines

end MsgBroker.Analysis.WsHandshake
