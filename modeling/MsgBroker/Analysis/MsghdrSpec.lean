import MsgBroker.Analysis.CmsgWalk

/-!
# What `mb_msg_from_msghdr` and the delivery of `mb_recvmsg` do

The loop over the lengths computes their sum or fails, the copy loop fills the body with the
contents of the buffers, and the loop over the control messages is a fold over the headers of the
iteration.
-/

set_option autoImplicit false

namespace MsgBroker.Analysis.Cmsg

open Lib Model

/-! ## Buffers -/

section Buffers

variable {v : Iovec} {iov : List Iovec}

theorem addresses_cons (v : Iovec) (iov : List Iovec) :
    addresses (v :: iov) = v.addresses ++ addresses iov := List.flatMap_cons

theorem contents_cons (mem : Mem) (v : Iovec) (iov : List Iovec) :
    contents mem (v :: iov) = v.addresses.map mem ++ contents mem iov := by
  rw [contents, addresses_cons, List.map_append]
  rfl

theorem capacityOf_cons (v : Iovec) (iov : List Iovec) :
    capacityOf (v :: iov) = v.len.toNat + capacityOf iov := by
  rw [capacityOf, List.map_cons, List.sum_cons]
  rfl

theorem addresses_of_len_zero (hlen : ¬ 0 < v.len) : v.addresses = [] := by
  have hzero : v.len = 0 := UInt64.le_zero_iff.mp (UInt64.not_lt.mp hlen)
  unfold Iovec.addresses
  rw [hzero]
  cases v.base with
  | none => rfl
  | some b => rfl

theorem addresses_of_base {b : ℕ} (hbase : v.base = some b) :
    v.addresses = List.range' b v.len.toNat := by
  rw [Iovec.addresses, hbase]
  rfl

theorem map_range'_eq_load (mem : Mem) (a n : ℕ) : (List.range' a n).map mem = mem.load a n := by
  rw [List.range'_eq_map_range, List.map_map]
  rfl

theorem length_addresses (hv : v.Present) : v.addresses.length = v.len.toNat := by
  by_cases hlen : 0 < v.len
  · obtain ⟨b, hb⟩ := Option.ne_none_iff_exists'.mp (hv hlen)
    rw [addresses_of_base hb, List.length_range']
  · rw [addresses_of_len_zero hlen, UInt64.le_zero_iff.mp (UInt64.not_lt.mp hlen)]
    rfl

theorem length_addresses_list (hiov : ∀ v ∈ iov, v.Present) :
    (addresses iov).length = capacityOf iov := by
  induction iov with
  | nil => rfl
  | cons v iov ih =>
    obtain ⟨hv, hiov⟩ := List.forall_mem_cons.mp hiov
    rw [addresses_cons, List.length_append, length_addresses hv, ih hiov, capacityOf_cons]

end Buffers

/-! ## The body of a message that is sent -/

theorem iovTotal_eq_ok {iov : List Iovec} {acc total : UInt64} (h : iovTotal iov acc = .ok total) :
    total.toNat = acc.toNat + capacityOf iov ∧ ∀ v ∈ iov, v.Present := by
  induction iov generalizing acc with
  | nil =>
    cases h
    exact ⟨rfl, List.forall_mem_nil _⟩
  | cons v iov ih =>
    rw [iovTotal] at h
    split at h
    · cases h
    · rename_i hfit
      split at h
      · cases h
      · rename_i hnull
        obtain ⟨htotal, hiov⟩ := ih h
        have hsum : (acc + v.len).toNat = acc.toNat + v.len.toNat := by
          have hmax : (UInt64.ofNat sizeMax).toNat = 18446744073709551615 := rfl
          have hacc := acc.toNat_lt
          have hle : acc ≤ UInt64.ofNat sizeMax := by
            rw [UInt64.le_iff_toNat_le, hmax]
            omega
          rw [UInt64.not_lt, UInt64.le_iff_toNat_le, UInt64.toNat_sub_of_le _ _ hle, hmax] at hfit
          rw [UInt64.toNat_add]
          omega
        refine ⟨?_, List.forall_mem_cons.mpr ⟨fun hpos hbase => hnull ⟨hpos, hbase⟩, hiov⟩⟩
        rw [htotal, hsum, capacityOf_cons, Nat.add_assoc]

/-- INTERNAL: the lengths of buffers that are all there fail by their sum only. -/
theorem iovTotal_eq_error {iov : List Iovec} {acc : UInt64} {e : Errno}
    (h : iovTotal iov acc = .error e) (hiov : ∀ v ∈ iov, v.Present) :
    2 ^ 64 ≤ acc.toNat + capacityOf iov := by
  induction iov generalizing acc with
  | nil => cases h
  | cons v iov ih =>
    obtain ⟨hv, hiov⟩ := List.forall_mem_cons.mp hiov
    rw [iovTotal] at h
    rw [capacityOf_cons]
    have hmax : (UInt64.ofNat sizeMax).toNat = 18446744073709551615 := rfl
    have hacc := acc.toNat_lt
    have hle : acc ≤ UInt64.ofNat sizeMax := by
      rw [UInt64.le_iff_toNat_le, hmax]
      omega
    have hroom : v.len > UInt64.ofNat sizeMax - acc ↔
        18446744073709551615 - acc.toNat < v.len.toNat := by
      rw [gt_iff_lt, UInt64.lt_iff_toNat_lt, UInt64.toNat_sub_of_le _ _ hle, hmax]
    split at h
    · rename_i hfull
      have hlt := hroom.mp hfull
      omega
    · rename_i hfit
      have hge := (not_congr hroom).mp hfit
      rw [if_neg fun hnull => hv hnull.1 hnull.2] at h
      have hsum := ih h hiov
      rw [UInt64.toNat_add, Nat.mod_eq_of_lt (by omega)] at hsum
      omega

theorem gather_eq (mem : Mem) {iov : List Iovec} (hiov : ∀ v ∈ iov, v.Present) {off : ℕ}
    {body : List UInt8} (hbody : body.length = off + capacityOf iov) :
    gather mem iov off body = some (body.take off ++ contents mem iov) := by
  induction iov generalizing off body with
  | nil =>
    have hlen : body.length ≤ off := Nat.le_of_eq hbody
    rw [gather, List.take_of_length_le hlen]
    exact congrArg some (List.append_nil body).symm
  | cons v iov ih =>
    obtain ⟨hv, hiov⟩ := List.forall_mem_cons.mp hiov
    rw [capacityOf_cons] at hbody
    rw [gather, contents_cons]
    by_cases hlen : 0 < v.len
    · obtain ⟨b, hb⟩ := Option.ne_none_iff_exists'.mp (hv hlen)
      have hload := Mem.length_load mem b v.len.toNat
      have hroom : off + (mem.load b v.len.toNat).length ≤ body.length := by omega
      simp only [if_pos hlen, hb, bind, Option.bind_some, copyInto, if_pos hroom]
      have hoff : (body.take off).length = off := by
        rw [List.length_take]
        omega
      rw [ih hiov]
      · have htake : off + v.len.toNat = (body.take off ++ mem.load b v.len.toNat).length := by
          rw [List.length_append, hoff, hload]
        rw [htake, List.take_left, addresses_of_base hb, map_range'_eq_load, List.append_assoc]
      · simp only [List.length_append, hoff, hload, List.length_drop]
        omega
    · have hzero : v.len.toNat = 0 := by
        rw [UInt64.le_zero_iff.mp (UInt64.not_lt.mp hlen)]
        rfl
      rw [if_neg hlen, addresses_of_len_zero hlen]
      exact ih hiov (by omega)

theorem length_initBody {total : ℕ} {block : Option (ℕ → UInt8)} {body : List UInt8}
    (h : initBody total block = some body) : body.length = total := by
  unfold initBody at h
  split at h
  · cases h
    exact List.length_replicate
  · split at h
    · obtain ⟨f, -, rfl⟩ := Option.map_eq_some_iff.mp h
      rw [List.length_map, List.length_range]
    · cases h

/-! ## The control messages of a message that is sent -/

theorem cmsgHeaders_of_empty {mem : Mem} {mhdr : Msghdr}
    (h : ¬ (mhdr.control.isSome ∧ 0 < mhdr.controllen)) : cmsgHeaders mem mhdr = [] := by
  have hfirst : cmsgFirsthdr mem mhdr = none := by
    cases hf : cmsgFirsthdr mem mhdr with
    | none => rfl
    | some p =>
      obtain ⟨hcontrol, hlen⟩ := firsthdr_eq_some hf
      refine absurd ⟨by rw [hcontrol]; rfl, ?_⟩ h
      rw [UInt64.lt_iff_toNat_lt]
      exact Nat.lt_of_lt_of_le (by decide) hlen
  unfold cmsgHeaders
  rw [hfirst]
  cases cmsgBound mhdr with
  | zero => rfl
  | succ n => rfl

theorem controlLoop_eq (mem : Mem) (alloc : ℕ → Bool) (mhdr : Msghdr) :
    controlLoop mem alloc mhdr =
      some (foldBody (copySphdr mem alloc) (cmsgHeaders mem mhdr) ⟨[], []⟩) := by
  unfold controlLoop
  split
  · exact forWalk_eq (bounded_nexthdr mem mhdr) _ (fun _ hp => inControl_firsthdr mem mhdr hp) _
  · rename_i hempty
    rw [cmsgHeaders_of_empty hempty]
    rfl

/-- The buffers are there, they fit the limit and a `size_t` together, and there is memory for the
body. -/
structure Gathers (env : MsghdrEnv) (max : ℤ) (mhdr : Msghdr) : Prop where
  iov : 0 < mhdr.iovlen → mhdr.iov ≠ none
  present : ∀ v ∈ mhdr.vecs, v.Present
  total : capacityOf mhdr.vecs < 2 ^ 64
  small : ¬ msgTooLarge max (UInt64.ofNat (capacityOf mhdr.vecs))
  body : capacityOf mhdr.vecs ≤ chunkrefMax ∨
    chunkAllocates (capacityOf mhdr.vecs) env.block.isSome = true

/-- INTERNAL: there is a body where it needs no chunk or the chunk is allocated. -/
theorem initBody_ne_none_iff {total : ℕ} {block : Option (ℕ → UInt8)} :
    initBody total block ≠ none ↔
      total ≤ chunkrefMax ∨ chunkAllocates total block.isSome = true := by
  unfold initBody
  split
  · rename_i hsmall
    simp [hsmall]
  · rename_i hlarge
    simp only [hlarge, false_or]
    split
    · rename_i halloc
      have hsome := (Bool.and_eq_true _ _ ▸ halloc).2
      simp [halloc, Option.isSome_iff_ne_none.mp hsome]
    · rename_i halloc
      simp [halloc]

/-- INTERNAL: **`mb_msg_from_msghdr` fails before the control messages, or the body has the contents
of the buffers and the loop over the control messages decides.** -/
theorem msgFromMsghdr_cases (mem : Mem) (env : MsghdrEnv) (max : ℤ) (mhdr : Msghdr) :
    (¬ Gathers env max mhdr ∧ ∃ e, msgFromMsghdr mem env max mhdr = some ⟨.error e, []⟩) ∨
    (Gathers env max mhdr ∧ msgFromMsghdr mem env max mhdr =
        some (MsgBuild.ofControl (contents mem mhdr.vecs) (UInt64.ofNat (capacityOf mhdr.vecs))
          (foldBody (copySphdr mem env.alloc) (cmsgHeaders mem mhdr) ⟨[], []⟩))) := by
  unfold msgFromMsghdr
  split
  · rename_i hnull
    exact Or.inl ⟨fun hg => hg.iov hnull.1 hnull.2, _, rfl⟩
  · rename_i hiov
    cases htotal : iovTotal mhdr.vecs 0 with
    | error e =>
      refine Or.inl ⟨fun hg => ?_, e, rfl⟩
      have hsum : 2 ^ 64 ≤ 0 + capacityOf mhdr.vecs := iovTotal_eq_error htotal hg.present
      have htot := hg.total
      omega
    | ok total =>
      obtain ⟨hsum, hpresent⟩ := iovTotal_eq_ok htotal
      have hcap : total.toNat = capacityOf mhdr.vecs := by
        rw [hsum]
        exact Nat.zero_add _
      have hback : UInt64.ofNat (capacityOf mhdr.vecs) = total := by
        rw [← hcap, UInt64.ofNat_toNat]
      dsimp only
      split
      · rename_i hlarge
        exact Or.inl ⟨fun hg => hg.small (hback ▸ hlarge), _, rfl⟩
      · rename_i hsmall
        cases hinit : initBody total.toNat env.block with
        | none =>
          exact Or.inl ⟨fun hg => initBody_ne_none_iff.mpr hg.body (hcap ▸ hinit), _, rfl⟩
        | some body =>
          have hbody : initBody (capacityOf mhdr.vecs) env.block ≠ none := by
            rw [← hcap, hinit]
            exact Option.some_ne_none _
          refine Or.inr ⟨⟨fun hpos hnone => hiov ⟨hpos, hnone⟩, hpresent, hcap ▸ total.toNat_lt,
            hback.symm ▸ hsmall, initBody_ne_none_iff.mp hbody⟩, ?_⟩
          have hlen : body.length = 0 + capacityOf mhdr.vecs := by
            rw [length_initBody hinit, hcap, Nat.zero_add]
          simp only [gather_eq mem hpresent hlen, controlLoop_eq, bind, Option.bind_some, pure,
            List.take_zero, List.nil_append, hback]

end MsgBroker.Analysis.Cmsg
