import Mathlib.Order.Interval.Finset.Nat
import MsgBroker.Analysis.CmsgBounds
import MsgBroker.Analysis.MsgQueueSpec
import MsgBroker.Model.InprocPair

/-!
# From the buffers of `mb_sendmsg` to the buffers of `mb_recvmsg`

The body of a message is the contents of the buffers it was sent from, and its `sphdr` the bytes of
the control message.
-/

set_option autoImplicit false

namespace MsgBroker.Analysis.Cmsg

open Lib Model

/-! ## The delivery loop -/

section Scatter

variable {body : List UInt8} {iov : List Iovec}

variable {v : Iovec} {b : ℕ} {written : UInt64}

theorem take_addresses_cons (hb : v.base = some b) (iov : List Iovec)
    (k : ℕ) :
    (addresses (v :: iov)).take k =
      List.range' b (min k v.len.toNat) ++ (addresses iov).take (k - v.len.toNat) := by
  rw [addresses_cons, addresses_of_base hb, List.take_append, List.length_range',
    List.range'_eq_map_range, ← List.map_take, List.take_range, ← List.range'_eq_map_range]

theorem toNat_chunk {msglen len : UInt64} (hle : written ≤ msglen)
    (hroom : written.toNat + len.toNat < 2 ^ 64) :
    (if written + len > msglen then msglen - written else len).toNat =
      min (msglen.toNat - written.toNat) len.toNat := by
  have hsum : (written + len).toNat = written.toNat + len.toNat := by
    rw [UInt64.toNat_add, Nat.mod_eq_of_lt hroom]
  rw [UInt64.le_iff_toNat_le] at hle
  split
  · rename_i hgt
    rw [gt_iff_lt, UInt64.lt_iff_toNat_lt, hsum] at hgt
    rw [UInt64.toNat_sub_of_le _ _ (UInt64.le_iff_toNat_le.mpr hle)]
    omega
  · rename_i hgt
    rw [gt_iff_lt, UInt64.lt_iff_toNat_lt, hsum] at hgt
    omega

/-- The loop has put bytes of the body at the given addresses and left the rest of the memory. -/
structure Written (mem mem' : Mem) (at_ : List ℕ) (bytes : List UInt8) : Prop where
  bytes : at_.map mem' = bytes
  frame : ∀ x, x ∉ at_ → mem' x = mem x

theorem Written.cons {mem mem' : Mem} {data : List UInt8}
    (hb : v.base = some b) (hdisj : ∀ x ∈ v.addresses, x ∉ addresses iov)
    (h : Written (mem.store b (data.take v.len.toNat)) mem'
      ((addresses iov).take (data.drop v.len.toNat).length)
      ((data.drop v.len.toNat).take (capacityOf iov))) :
    Written mem mem' ((addresses (v :: iov)).take data.length)
      (data.take (capacityOf (v :: iov))) := by
  set front := data.take v.len.toNat with hfront
  have hlen : front.length = min data.length v.len.toNat := by
    rw [hfront, List.length_take, Nat.min_comm]
  rw [take_addresses_cons hb, ← hlen, capacityOf_cons, List.take_add, ← hfront, ← List.length_drop]
  constructor
  · have hkept : (List.range' b front.length).map mem' =
        (List.range' b front.length).map (mem.store b front) := by
      apply List.map_congr_left
      intro x hx
      refine h.frame x fun hin => hdisj x ?_ (List.mem_of_mem_take hin)
      rw [addresses_of_base hb]
      rw [List.mem_range'_1] at hx ⊢
      omega
    rw [List.map_append, hkept, map_range'_eq_load, Mem.load_store_self, h.bytes]
  · intro x hx
    obtain ⟨hout, hrest⟩ := not_or.mp (mt List.mem_append.mpr hx)
    rw [h.frame x hrest]
    apply Mem.store_of_notMem
    rw [List.mem_range'_1] at hout
    omega

theorem drop_min_length {α : Type} (l : List α) (n : ℕ) : l.drop (min l.length n) = l.drop n := by
  rcases Nat.le_total l.length n with h | h
  · rw [Nat.min_eq_left h, List.drop_length, List.drop_of_length_le h]
  · rw [Nat.min_eq_right h]

theorem toNat_ofNat_length (hbody : body.length < 2 ^ 64) :
    (UInt64.ofNat body.length).toNat = body.length := by
  rw [UInt64.toNat_ofNat', Nat.mod_eq_of_lt hbody]

theorem scatter_cons (iov : List Iovec) (hbody : body.length < 2 ^ 64)
    (hlt : written.toNat < body.length) (hb : v.base = some b)
    (hlen : 0 < v.len) (hfits : written.toNat + v.len.toNat < 2 ^ 64) (mem : Mem) :
    ∃ written' : UInt64,
      written'.toNat = written.toNat + min (body.length - written.toNat) v.len.toNat ∧
      scatter body (v :: iov) written mem =
        scatter body iov written' (mem.store b ((body.drop written.toNat).take v.len.toNat)) := by
  have hmsglen := toNat_ofNat_length hbody
  have hmore : written < UInt64.ofNat body.length := by
    rw [UInt64.lt_iff_toNat_lt, hmsglen]
    exact hlt
  have hchunk := toNat_chunk (UInt64.le_of_lt hmore) hfits
  rw [hmsglen] at hchunk
  simp only [scatter]
  rw [if_pos hmore]
  generalize (if written + v.len > UInt64.ofNat body.length then
    UInt64.ofNat body.length - written else v.len) = chunk at hchunk ⊢
  have hpos : 0 < chunk := by
    rw [UInt64.lt_iff_toNat_lt, UInt64.toNat_zero] at hlen ⊢
    omega
  have hread : readBytes (body.drop written.toNat) chunk.toNat =
      some ((body.drop written.toNat).take v.len.toNat) := by
    have hdata : (body.drop written.toNat).length = body.length - written.toNat :=
      List.length_drop
    rw [readBytes, if_pos (by omega), hchunk, ← hdata, Nat.min_comm, ← List.take_eq_take_min]
  refine ⟨written + chunk, ?_, ?_⟩
  · rw [UInt64.toNat_add, Nat.mod_eq_of_lt (by omega), hchunk]
  · rw [if_pos hpos]
    simp only [hb, hread, bind, Option.bind_some]

theorem scatter_cons_empty (hbody : body.length < 2 ^ 64)
    (hlt : written.toNat < body.length) (hlen : v.len = 0) (mem : Mem) :
    scatter body (v :: iov) written mem = scatter body iov written mem := by
  have hmore : written < UInt64.ofNat body.length := by
    rw [UInt64.lt_iff_toNat_lt, toNat_ofNat_length hbody]
    exact hlt
  simp only [scatter, hlen]
  rw [if_pos hmore, UInt64.add_zero, if_neg (UInt64.lt_asymm hmore), if_neg (by decide)]

/-- INTERNAL: **the delivery loop writes as much of the body as the buffers take**, in their order.
-/
theorem scatter_eq (hiov : ∀ v ∈ iov, v.Present) (hnodup : (addresses iov).Nodup)
    (hbody : body.length < 2 ^ 64) (hle : written.toNat ≤ body.length)
    (hroom : written.toNat + capacityOf iov < 2 ^ 64) (mem : Mem) :
    ∃ mem', scatter body iov written mem = some mem' ∧
      Written mem mem' ((addresses iov).take (body.drop written.toNat).length)
        ((body.drop written.toNat).take (capacityOf iov)) := by
  induction iov generalizing written mem with
  | nil => exact ⟨mem, rfl, ⟨by simp [addresses, capacityOf], fun _ _ => rfl⟩⟩
  | cons v iov ih =>
    obtain ⟨hv, hiov⟩ := List.forall_mem_cons.mp hiov
    rw [addresses_cons] at hnodup
    obtain ⟨-, hnodup', hdisj⟩ := List.nodup_append.mp hnodup
    rw [capacityOf_cons] at hroom
    by_cases hlt : written.toNat < body.length
    · by_cases hlen : v.len = 0
      · have hempty : ¬ 0 < v.len := by rw [hlen]; decide
        have hzero : v.len.toNat = 0 := by rw [hlen]; rfl
        rw [scatter_cons_empty hbody hlt hlen, addresses_cons, addresses_of_len_zero hempty,
          capacityOf_cons, hzero, Nat.zero_add]
        exact ih hiov hnodup' hle (by omega) mem
      · have hpos : 0 < v.len := UInt64.pos_iff_ne_zero.mpr hlen
        obtain ⟨b, hb⟩ := Option.ne_none_iff_exists'.mp (hv hpos)
        obtain ⟨written', hnew, hround⟩ :=
          scatter_cons iov hbody hlt hb hpos (by omega) mem
        have hle' : written'.toNat ≤ body.length := by omega
        have hrest : body.drop written'.toNat =
            (body.drop written.toNat).drop v.len.toNat := by
          rw [hnew, ← List.drop_drop, ← List.length_drop, drop_min_length]
        obtain ⟨mem', hscatter, hwritten⟩ := ih hiov hnodup' hle' (by omega)
          (mem.store b ((body.drop written.toNat).take v.len.toNat))
        rw [hrest] at hwritten
        exact ⟨mem', hround.trans hscatter,
          Written.cons hb (fun x hx hin => hdisj x hx x hin rfl) hwritten⟩
    · -- The whole body is written.
      have hall : ¬ written < UInt64.ofNat body.length := by
        rw [UInt64.lt_iff_toNat_lt, toNat_ofNat_length hbody]
        exact hlt
      rw [List.drop_of_length_le (Nat.le_of_not_lt hlt)]
      refine ⟨mem, ?_, ⟨by simp, fun _ _ => rfl⟩⟩
      simp only [scatter]
      rw [if_neg hall]

end Scatter

/-! ## The control message -/

section Control

variable {mem : Mem} {mhdr : Msghdr} {control : ℕ} {bytes : List UInt8}

theorem toNat_cmsgLen {h : ℕ} (hh : h + 23 < 2 ^ 64) :
    (cmsgLen (UInt64.ofNat h)).toNat = 16 + h := by
  have hhdr : (cmsgAlign cmsghdrSize).toNat = 16 := by decide
  rw [cmsgLen, UInt64.toNat_add, hhdr, UInt64.toNat_ofNat']
  omega

theorem toNat_cmsgSpace {h : ℕ} (hh : h + 23 < 2 ^ 64) :
    (cmsgSpace (UInt64.ofNat h)).toNat = (h + 7) / 8 * 8 + 16 := by
  have hhdr : (cmsgAlign cmsghdrSize).toNat = 16 := by decide
  rw [cmsgSpace, UInt64.toNat_add, hhdr, toNat_cmsgAlign, UInt64.toNat_ofNat']
  omega

/-- One control message of type `SP_HDR` with these bytes fills the buffer, as `MB_CMSG_LEN` and
`MB_CMSG_SPACE` build it.  The sizes do not wrap around. -/
structure HasSphdr (mem : Mem) (mhdr : Msghdr) (control : ℕ) (bytes : List UInt8) : Prop where
  real : bytes.length + 23 < 2 ^ 64
  base : mhdr.control = some control
  controllen : mhdr.controllen = cmsgSpace (UInt64.ofNat bytes.length)
  header : cmsghdrAt mem control = ⟨cmsgLen (UInt64.ofNat bytes.length), protoSp, spHdr⟩
  data : mem.load (cmsgData control) bytes.length = bytes

theorem HasSphdr.headers (h : HasSphdr mem mhdr control bytes) :
    cmsgHeaders mem mhdr = [control] := by
  have hspace := toNat_cmsgSpace h.real
  rw [← h.controllen] at hspace
  have hsixteen := toNat_cmsghdrSize
  have hfirst : cmsgFirsthdr mem mhdr = some control := by
    have hlong : ¬ mhdr.controllen < cmsghdrSize := by
      rw [UInt64.lt_iff_toNat_lt]
      omega
    simp only [cmsgFirsthdr, cmsgNxthdr, bind, Option.bind_some, h.base, if_neg hlong]
    rw [if_neg (by omega)]
  have hnext : cmsgNexthdr mem mhdr control = none := by
    rw [Option.eq_none_iff_forall_ne_some]
    intro p hp
    obtain ⟨-, rfl, hin⟩ :=
      (nexthdr_eq_some_iff h.base (Nat.le_refl _) (by omega)).mp hp
    rw [h.header, toNat_cmsgLen h.real] at hin
    omega
  have hbound : 0 < cmsgBound mhdr := by
    unfold cmsgBound
    exact Nat.div_pos (by omega) (by decide)
  obtain ⟨n, hn⟩ := Nat.exists_eq_succ_of_ne_zero (Nat.pos_iff_ne_zero.mp hbound)
  unfold cmsgHeaders
  rw [hfirst, hn, trail, hnext]
  cases n with
  | zero => rfl
  | succ n => rfl

theorem HasSphdr.sphdr (h : HasSphdr mem mhdr control bytes) {alloc : ℕ → Bool} {t : SphdrCopy}
    (hfold : foldBody (copySphdr mem alloc) (cmsgHeaders mem mhdr) ⟨[], []⟩ = .ok t) :
    t.sphdr = bytes := by
  obtain ⟨-, hcopied, hsphdr⟩ := foldBody_copySphdr hfold
  rw [hsphdr rfl, hcopied, h.headers]
  have hlen : (cmsghdrAt mem control).len.toNat = 16 + bytes.length := by
    rw [h.header, toNat_cmsgLen h.real]
  by_cases hnil : bytes = []
  · have hrange : sphdrRange mem control = none := by
      rw [sphdrRange, if_neg]
      rw [hlen, hnil]
      exact fun hcon => absurd hcon.2 (by decide)
    simp [hrange, hnil, lastBytes]
  · have hpos := List.length_pos_iff.mpr hnil
    have hrange : sphdrRange mem control = some (cmsgData control, bytes.length) := by
      have hsp : (cmsghdrAt mem control).isSpHdr := by
        rw [h.header]
        exact ⟨rfl, rfl⟩
      rw [sphdrRange, if_pos ⟨hsp, by rw [toNat_cmsghdrSize]; omega⟩, hlen, toNat_cmsghdrSize,
        Nat.add_sub_cancel_left]
    simp [hrange, lastBytes, h.data]

theorem cmsghdrAt_storeSphdr (mem : Mem) (c : ℕ) (bytes : List UInt8) :
    cmsghdrAt (storeSphdr c bytes mem) c =
      ⟨cmsgLen (UInt64.ofNat bytes.length), protoSp, spHdr⟩ := by
  have hsixteen := toNat_cmsghdrSize
  have hwidth (n v : ℕ) : (leBytes n v).length = n := length_leBytes n v
  set len := (cmsgLen (UInt64.ofNat bytes.length)).toNat with hlen
  have hload : (storeSphdr c bytes mem).load c 8 = leBytes 8 len := by
    unfold storeSphdr cmsgData Mem.storeNat
    rw [Mem.load_store_of_disjoint (by omega),
      Mem.load_store_of_disjoint (by rw [hwidth]; omega),
      Mem.load_store_of_disjoint (by rw [hwidth]; omega)]
    have hself := Mem.load_store_self mem c (leBytes 8 len)
    rwa [hwidth] at hself
  have hlevel : (storeSphdr c bytes mem).load (c + 8) 4 = leBytes 4 1 := by
    unfold storeSphdr cmsgData Mem.storeNat
    rw [Mem.load_store_of_disjoint (by omega),
      Mem.load_store_of_disjoint (by rw [hwidth]; omega)]
    exact Mem.load_store_self _ (c + 8) (leBytes 4 1)
  have htype : (storeSphdr c bytes mem).load (c + 12) 4 = leBytes 4 1 := by
    unfold storeSphdr cmsgData Mem.storeNat
    rw [Mem.load_store_of_disjoint (by omega)]
    exact Mem.load_store_self _ (c + 12) (leBytes 4 1)
  have hnat : (storeSphdr c bytes mem).loadNat c 8 = len := by
    rw [Mem.loadNat, hload, leNat_leBytes, Nat.mod_eq_of_lt]
    exact UInt64.toNat_lt _
  have hone : hostInt (leBytes 4 1) = 1 := by decide
  unfold cmsghdrAt
  rw [hnat, hlevel, htype, hone, hlen, UInt64.ofNat_toNat]
  rfl

theorem load_storeSphdr (mem : Mem) (c : ℕ) (bytes : List UInt8) :
    (storeSphdr c bytes mem).load (cmsgData c) bytes.length = bytes := Mem.load_store_self _ _ _

theorem storeSphdr_of_notMem {c x : ℕ} (h : x < c ∨ cmsgData c + bytes.length ≤ x) :
    storeSphdr c bytes mem x = mem x := by
  unfold cmsgData at h
  have hsixteen := toNat_cmsghdrSize
  unfold storeSphdr cmsgData
  rw [Mem.store_of_notMem (by omega), Mem.storeNat_of_notMem (by omega),
    Mem.storeNat_of_notMem (by omega), Mem.storeNat_of_notMem (by omega)]

end Control

/-! ## One message from end to end -/

/-- The buffers of a `mb_recvmsg` are real: they lie at addresses that are not `NULL`, and no two
of them overlap, the control buffer included. -/
structure RealBuffers (mhdr : Msghdr) : Prop where
  space : ∀ a ∈ addresses mhdr.vecs, 0 < a ∧ a < 2 ^ 64
  nodup : (addresses mhdr.vecs ++ Iovec.addresses ⟨mhdr.control, mhdr.controllen⟩).Nodup
  control : mhdr.control = none → mhdr.controllen = 0

variable {mhdr : Msghdr}

theorem RealBuffers.capacity_lt (h : RealBuffers mhdr)
    (hpresent : ∀ v ∈ mhdr.vecs, v.Present) : capacityOf mhdr.vecs < 2 ^ 64 := by
  rw [← length_addresses_list hpresent]
  have hsub : (addresses mhdr.vecs).toFinset ⊆ Finset.Ico 1 (2 ^ 64) := by
    intro a ha
    obtain ⟨hpos, hlt⟩ := h.space a (List.mem_toFinset.mp ha)
    exact Finset.mem_Ico.mpr ⟨hpos, hlt⟩
  have hcard := Finset.card_le_card hsub
  rw [List.toFinset_card_of_nodup (List.nodup_append.mp h.nodup).1, Nat.card_Ico] at hcard
  omega

/-- The bytes of the control message that is sent: none without a control buffer. -/
inductive SendsSphdr (mem : Mem) (mhdr : Msghdr) : List UInt8 → Prop where
  | absent (h : mhdr.control = none ∨ mhdr.controllen = 0) : SendsSphdr mem mhdr []
  | one {control : ℕ} {bytes : List UInt8} (hpos : 1 ≤ bytes.length)
      (h : HasSphdr mem mhdr control bytes) : SendsSphdr mem mhdr bytes

/-- There is space for the control message. -/
def SpaceFor (mhdr : Msghdr) (bytes : List UInt8) : Prop :=
  1 ≤ bytes.length ∧ cmsgSpace (UInt64.ofNat bytes.length) ≤ mhdr.controllen

instance (mhdr : Msghdr) (bytes : List UInt8) : Decidable (SpaceFor mhdr bytes) :=
  inferInstanceAs (Decidable (_ ∧ _))

/-- What the control buffer of the receiver is afterwards. -/
def ReturnsSphdr (g : GotMsg) (bytes : List UInt8) : Prop :=
  if SpaceFor g.mhdr bytes then
    ∃ control, g.mhdr.control = some control ∧ HasSphdr g.mem' g.mhdr' control bytes ∧
      cmsgHeaders g.mem' g.mhdr' = [control]
  else g.mhdr'.controllen = 0

/-- The addresses that are written besides the buffers: the control message. -/
def sphdrAddresses (g : GotMsg) (bytes : List UInt8) : List ℕ :=
  if SpaceFor g.mhdr bytes then
    List.range' (g.mhdr.control.getD 0) (cmsghdrSize.toNat + bytes.length)
  else []

/-- What was sent arrives: `T` bytes are returned at both ends, the first `min T C` bytes of the
receive buffers are those of the send buffers, the control message arrives if there is space for
it, and nothing else is written. -/
structure Arrives (m : SentMsg) (g : GotMsg) (bytes : List UInt8) : Prop where
  sent : m.rc = capacityOf m.mhdr.vecs
  got : g.rc = capacityOf m.mhdr.vecs
  body : (contents g.mem' g.mhdr.vecs).take
      (min (capacityOf m.mhdr.vecs) (capacityOf g.mhdr.vecs)) =
    (contents m.mem m.mhdr.vecs).take (min (capacityOf m.mhdr.vecs) (capacityOf g.mhdr.vecs))
  control : ReturnsSphdr g bytes
  frame : ∀ x,
    x ∉ (addresses g.mhdr.vecs).take (min (capacityOf m.mhdr.vecs) (capacityOf g.mhdr.vecs)) →
    x ∉ sphdrAddresses g bytes → g.mem' x = g.mem x

theorem present_of_checkRecv (h : InprocPair.checkRecv mhdr = none) :
    ∀ v ∈ mhdr.vecs, v.Present := by
  unfold InprocPair.checkRecv at h
  split at h
  · cases h
  · split at h
    · cases h
    · split at h
      · cases h
      · rename_i hnull
        exact fun v hv hpos hbase => hnull ⟨v, hv, hpos, hbase⟩

/-- `mb_msg_from_msghdr` built the message. -/
def Built (m : SentMsg) : Prop :=
  ∃ env max total copied,
    msgFromMsghdr m.mem env max m.mhdr = some ⟨.ok ⟨m.msg, total⟩, copied⟩ ∧
      m.rc = asInt total.toNat

theorem Built.facts {m : SentMsg} (h : Built m) :
    m.msg.body = contents m.mem m.mhdr.vecs ∧ m.msg.body.length = capacityOf m.mhdr.vecs ∧
      m.msg.body.length < 2 ^ 64 ∧ m.rc = asInt (capacityOf m.mhdr.vecs) ∧
      ∀ bytes, SendsSphdr m.mem m.mhdr bytes → m.msg.sphdr = bytes := by
  obtain ⟨env, max, total, copied, hbuild, hrc⟩ := h
  rcases msgFromMsghdr_cases m.mem env max m.mhdr with ⟨-, e, heq⟩ | ⟨hg, heq⟩
  · rw [hbuild] at heq
    cases heq
  · rw [hbuild] at heq
    cases hfold : foldBody (copySphdr m.mem env.alloc) (cmsgHeaders m.mem m.mhdr) ⟨[], []⟩ with
    | error e =>
      rw [hfold] at heq
      cases heq
    | ok t =>
      rw [hfold] at heq
      injection heq with heq
      injection heq with hres hcopied
      injection hres with hres
      injection hres with hmsg htotal
      have hcap : total.toNat = capacityOf m.mhdr.vecs := by
        rw [htotal, UInt64.toNat_ofNat', Nat.mod_eq_of_lt hg.total]
      rw [hmsg, hrc, hcap]
      have hlen : (contents m.mem m.mhdr.vecs).length = capacityOf m.mhdr.vecs := by
        rw [contents, List.length_map, length_addresses_list hg.present]
      refine ⟨rfl, hlen, ?_, rfl, ?_⟩
      · show (contents m.mem m.mhdr.vecs).length < 2 ^ 64
        rw [hlen, ← hcap]
        exact total.toNat_lt
      · intro bytes hbytes
        cases hbytes with
        | absent habsent =>
          have hempty : ¬ (m.mhdr.control.isSome ∧ 0 < m.mhdr.controllen) := by
            rintro ⟨hsome, hpos⟩
            rcases habsent with hnone | hzero
            · rw [hnone] at hsome
              cases hsome
            · rw [hzero] at hpos
              exact absurd hpos (by decide)
          rw [cmsgHeaders_of_empty hempty] at hfold
          cases hfold
          rfl
        | one hpos hsphdr => exact hsphdr.sphdr hfold

section Return

variable {mhdr : Msghdr} {bytes : List UInt8} (mem : Mem)

theorem returnControl_of_space (hreal : RealBuffers mhdr) (hlen : bytes.length + 23 < 2 ^ 64)
    (hspace : SpaceFor mhdr bytes) :
    ∃ control mhdr', mhdr.control = some control ∧
      returnControl bytes mhdr mem = (mhdr', storeSphdr control bytes mem) ∧
      HasSphdr (storeSphdr control bytes mem) mhdr' control bytes ∧
      ∀ x ∈ addresses mhdr.vecs,
        x ∉ List.range' control (cmsghdrSize.toNat + bytes.length) := by
  have hroom := UInt64.le_iff_toNat_le.mp hspace.2
  rw [toNat_cmsgSpace hlen] at hroom
  have hpos : 0 < mhdr.controllen := by
    rw [UInt64.lt_iff_toNat_lt, UInt64.toNat_zero]
    omega
  cases hcontrol : mhdr.control with
  | none =>
    rw [hreal.control hcontrol] at hpos
    exact absurd hpos (by decide)
  | some control =>
    refine ⟨control, { mhdr with controllen := cmsgSpace (UInt64.ofNat bytes.length) }, rfl, ?_,
      ⟨hlen, hcontrol, rfl, cmsghdrAt_storeSphdr mem control bytes,
        load_storeSphdr mem control bytes⟩, ?_⟩
    · unfold returnControl
      rw [hcontrol]
      dsimp only
      rw [if_pos hpos, if_pos ⟨hspace.1, hspace.2⟩]
    · intro x hx hin
      -- The control message lies in the control buffer, which no other buffer overlaps.
      refine (List.nodup_append.mp hreal.nodup).2.2 x hx x ?_ rfl
      rw [addresses_of_base hcontrol, List.mem_range'_1]
      rw [List.mem_range'_1, toNat_cmsghdrSize] at hin
      show control ≤ x ∧ x < control + mhdr.controllen.toNat
      omega

theorem returnControl_of_not_space (hreal : RealBuffers mhdr) (hspace : ¬ SpaceFor mhdr bytes) :
    ∃ mhdr', returnControl bytes mhdr mem = (mhdr', mem) ∧ mhdr'.controllen = 0 := by
  unfold returnControl
  cases hcontrol : mhdr.control with
  | none => exact ⟨mhdr, rfl, hreal.control hcontrol⟩
  | some control =>
    dsimp only
    split
    · rw [if_neg fun hcon => hspace ⟨hcon.1, hcon.2⟩]
      exact ⟨_, rfl, rfl⟩
    · rename_i hzero
      exact ⟨mhdr, rfl, UInt64.le_zero_iff.mp (UInt64.not_lt.mp hzero)⟩

theorem returnControl_spec {g : GotMsg} (hreal : RealBuffers g.mhdr)
    (hlen : 1 ≤ bytes.length → bytes.length + 23 < 2 ^ 64)
    (hmhdr : g.mhdr' = (returnControl bytes g.mhdr mem).1)
    (hmem : g.mem' = (returnControl bytes g.mhdr mem).2) :
    ReturnsSphdr g bytes ∧ (∀ x, x ∉ sphdrAddresses g bytes → g.mem' x = mem x) ∧
      ∀ x ∈ addresses g.mhdr.vecs, x ∉ sphdrAddresses g bytes := by
  unfold ReturnsSphdr sphdrAddresses
  by_cases hspace : SpaceFor g.mhdr bytes
  · obtain ⟨control, mhdr', hbase, hret, hhas, hapart⟩ :=
      returnControl_of_space mem hreal (hlen hspace.1) hspace
    rw [hret] at hmhdr hmem
    rw [if_pos hspace, if_pos hspace, hmhdr, hmem, hbase, Option.getD_some]
    refine ⟨⟨control, rfl, hhas, hhas.headers⟩, ?_, hapart⟩
    intro x hx
    apply storeSphdr_of_notMem
    rw [List.mem_range'_1] at hx
    unfold cmsgData
    omega
  · obtain ⟨mhdr', hret, hzero⟩ := returnControl_of_not_space mem hreal hspace
    rw [hret] at hmhdr hmem
    rw [if_neg hspace, if_neg hspace, hmhdr, hmem]
    exact ⟨hzero, fun _ _ => rfl, fun _ _ => List.not_mem_nil⟩

end Return

theorem SendsSphdr.real {mem : Mem} {bytes : List UInt8}
    (h : SendsSphdr mem mhdr bytes) (hpos : 1 ≤ bytes.length) : bytes.length + 23 < 2 ^ 64 := by
  cases h with
  | absent => exact absurd hpos (by decide)
  | one _ h => exact h.real

/-- The message of `m` was handed out to `g`. -/
def Passed (m : SentMsg) (g : GotMsg) : Prop :=
  InprocPair.checkRecv g.mhdr = none ∧ InprocPair.deliver g.mem g.mhdr m.msg = some g

theorem deliver_eq (hreal : RealBuffers mhdr)
    (hcheck : InprocPair.checkRecv mhdr = none) {msg : Msg Unit}
    (hbody : msg.body.length < 2 ^ 64) (mem : Mem) :
    ∃ mem₁, InprocPair.deliver mem mhdr msg =
        some ⟨mem, mhdr, asInt msg.body.length, (returnControl msg.sphdr mhdr mem₁).1,
          (returnControl msg.sphdr mhdr mem₁).2⟩ ∧
      Written mem mem₁ ((addresses mhdr.vecs).take msg.body.length)
        (msg.body.take (capacityOf mhdr.vecs)) := by
  have hpresent := present_of_checkRecv hcheck
  have hcap := hreal.capacity_lt hpresent
  have hroom : (0 : UInt64).toNat + capacityOf mhdr.vecs < 2 ^ 64 := by
    rwa [UInt64.toNat_zero, Nat.zero_add]
  obtain ⟨mem₁, hscatter, hwritten⟩ := scatter_eq hpresent (List.nodup_append.mp hreal.nodup).1
    hbody (Nat.zero_le _) hroom mem
  refine ⟨mem₁, ?_, hwritten⟩
  simp only [InprocPair.deliver, hscatter, bind, Option.bind_some, pure]

theorem asInt_of_le {n : ℕ} (h : n ≤ intMax) : asInt n = n := by
  unfold intMax at h
  unfold asInt
  rw [Int.bmod_eq_of_le] <;> omega

theorem arrives {m : SentMsg} {g : GotMsg} (hbuilt : Built m) (hpassed : Passed m g)
    (hreal : RealBuffers g.mhdr) (hmax : capacityOf m.mhdr.vecs ≤ intMax) {bytes : List UInt8}
    (hbytes : SendsSphdr m.mem m.mhdr bytes) : Arrives m g bytes := by
  obtain ⟨hbody, hlen, hlt, hrc, hsphdr⟩ := hbuilt.facts
  obtain ⟨hcheck, hdeliver⟩ := hpassed
  obtain ⟨mem₁, heq, hwritten⟩ := deliver_eq hreal hcheck hlt g.mem
  rw [hdeliver, hsphdr bytes hbytes] at heq
  have hg := Option.some.inj heq
  set T := capacityOf m.mhdr.vecs
  set C := capacityOf g.mhdr.vecs with hC
  have hcount : (addresses g.mhdr.vecs).length = C :=
    length_addresses_list (present_of_checkRecv hcheck)
  have hat : (addresses g.mhdr.vecs).take m.msg.body.length =
      (addresses g.mhdr.vecs).take (min T C) := by
    rw [hlen, ← hcount, ← List.take_eq_take_min]
  have hfront : m.msg.body.take C = m.msg.body.take (min T C) := by
    rw [← hlen, Nat.min_comm, ← List.take_eq_take_min]
  rw [hat, hfront, hbody] at hwritten
  obtain ⟨hret, hkept, hapart⟩ :=
    returnControl_spec mem₁ hreal hbytes.real (by rw [hg]) (by rw [hg])
  refine ⟨?_, ?_, ?_, hret, ?_⟩
  · rw [hrc, asInt_of_le hmax]
  · have hgrc : g.rc = asInt m.msg.body.length := by rw [hg]
    rw [hgrc, hlen, asInt_of_le hmax]
  · have hsame : ((addresses g.mhdr.vecs).take (min T C)).map g.mem' =
        ((addresses g.mhdr.vecs).take (min T C)).map mem₁ :=
      List.map_congr_left fun x hx => hkept x (hapart x (List.mem_of_mem_take hx))
    rw [contents, ← List.map_take, hsame, hwritten.bytes]
  · intro x hx hx'
    rw [hkept x hx', hwritten.frame x hx]

end MsgBroker.Analysis.Cmsg
