import MsgBroker.Model.NetAddr

/-!
# The addresses that `mb_net_parse_addr` takes

`netParseAddr_eq_some_iff` says what the composition of `strstr`, `strchr`, `strrchr` and `strtoul`
takes: behind a closing bracket there may be anything up to the last colon, and the port is what
`strtoul` reads as a whole.
-/

set_option autoImplicit false

namespace MsgBroker.Analysis.NetAddr

open Lib Model

/-! ## What the parser looks at -/

/-- How the parser divides the text behind `://`: the host, what stands between a closing bracket
and the last colon, and the text of the port. -/
inductive AddrSplit (host gap port : List UInt8) : List UInt8 → Prop where
  | plain (hgap : gap = []) (hhead : (host ++ colon :: port).head? ≠ some leftBracket)
      (hport : colon ∉ port) : AddrSplit host gap port (host ++ colon :: port)
  | bracketed (hhost : rightBracket ∉ host) (hport : colon ∉ port) :
      AddrSplit host gap port (leftBracket :: (host ++ rightBracket :: (gap ++ colon :: port)))

section Split

variable {c : UInt8} {a a' t t' : List UInt8}

theorem last_unique (h : a ++ c :: t = a' ++ c :: t') (ht : c ∉ t) (ht' : c ∉ t') :
    a = a' ∧ t = t' := by
  have hfound : strrchr c (a ++ c :: t) = some (c :: t) :=
    strrchr_eq_some_iff.mpr ⟨a, t, rfl, rfl, ht⟩
  have hfound' : strrchr c (a ++ c :: t) = some (c :: t') :=
    strrchr_eq_some_iff.mpr ⟨a', t', rfl, h, ht'⟩
  obtain rfl : t = t' := (List.cons.inj (Option.some.inj (hfound.symm.trans hfound'))).2
  exact ⟨List.append_cancel_right h, rfl⟩

theorem first_unique (h : a ++ c :: t = a' ++ c :: t') (ha : c ∉ a) (ha' : c ∉ a') :
    a = a' ∧ t = t' := by
  have hfound : strchr c (a ++ c :: t) = some (c :: t) :=
    strchr_eq_some_iff.mpr ⟨a, t, rfl, rfl, ha⟩
  have hfound' : strchr c (a ++ c :: t) = some (c :: t') :=
    strchr_eq_some_iff.mpr ⟨a', t', rfl, h, ha'⟩
  obtain rfl : t = t' := (List.cons.inj (Option.some.inj (hfound.symm.trans hfound'))).2
  exact ⟨List.append_cancel_right h, rfl⟩

variable {host host' gap gap' port port' text : List UInt8}

theorem AddrSplit.unique (h : AddrSplit host gap port text)
    (h' : AddrSplit host' gap' port' text) : host = host' ∧ gap = gap' ∧ port = port' := by
  generalize htext : text = text' at h'
  cases h with
  | plain hgap hhead hport =>
    cases h' with
    | plain hgap' hhead' hport' =>
      obtain ⟨hhost, hp⟩ := last_unique htext hport hport'
      exact ⟨hhost, hgap.trans hgap'.symm, hp⟩
    | bracketed =>
      rw [htext] at hhead
      exact absurd rfl hhead
  | bracketed hhost hport =>
    cases h' with
    | plain hgap' hhead' hport' =>
      rw [← htext] at hhead'
      exact absurd rfl hhead'
    | bracketed hhost' hport' =>
      obtain ⟨hh, hrest⟩ := first_unique (List.cons.inj htext).2 hhost hhost'
      obtain ⟨hg, hp⟩ := last_unique hrest hport hport'
      exact ⟨hh, hg, hp⟩

theorem addrParts_eq_some_iff {hs he ps : List UInt8} :
    addrParts text = some (hs, he, ps) ↔
      ∃ host gap port, AddrSplit host gap port text ∧ hs = host ++ he ∧ ps = colon :: port ∧
        ((text.head? = some leftBracket ∧ he = rightBracket :: (gap ++ ps)) ∨
          text.head? ≠ some leftBracket ∧ he = ps) := by
  unfold addrParts
  split
  · -- A bracket.
    rename_i hostStart
    constructor
    · intro h
      obtain ⟨he', hfirst, h⟩ := Option.bind_eq_some_iff.mp h
      obtain ⟨ps', hlast, h⟩ := Option.bind_eq_some_iff.mp h
      cases h
      obtain ⟨host, rest, rfl, rfl, hhost⟩ := strchr_eq_some_iff.mp hfirst
      obtain ⟨front, port, rfl, hsplit, hport⟩ := strrchr_eq_some_iff.mp hlast
      cases front with
      | nil => exact absurd (List.cons.inj hsplit).1 (by decide)
      | cons x gap =>
        obtain ⟨-, rfl⟩ := List.cons.inj hsplit
        exact ⟨host, gap, port, .bracketed hhost hport, rfl, rfl, Or.inl ⟨rfl, rfl⟩⟩
    · rintro ⟨host, gap, port, hsplit, rfl, rfl, hcase⟩
      generalize htext : (91 : UInt8) :: hostStart = text at hsplit
      cases hsplit with
      | plain _ hhead => exact absurd (htext ▸ rfl) hhead
      | bracketed hhost hport =>
        obtain ⟨-, rfl⟩ := List.cons.inj htext
        rcases hcase with ⟨-, rfl⟩ | ⟨hhead, -⟩
        · have hfirst : strchr rightBracket (host ++ rightBracket :: (gap ++ colon :: port)) =
              some (rightBracket :: (gap ++ colon :: port)) :=
            strchr_eq_some_iff.mpr ⟨host, _, rfl, rfl, hhost⟩
          have hlast : strrchr colon (rightBracket :: (gap ++ colon :: port)) =
              some (colon :: port) :=
            strrchr_eq_some_iff.mpr ⟨rightBracket :: gap, port, rfl, rfl, hport⟩
          simp only [hfirst, hlast, bind, Option.bind_some, pure]
        · exact absurd rfl hhead
  · -- No bracket.
    rename_i hstart
    have hhead : text.head? ≠ some leftBracket := by
      intro hhead
      cases text with
      | nil => cases hhead
      | cons x rest => exact hstart rest (by rw [Option.some.inj hhead])
    constructor
    · intro h
      obtain ⟨ps', hlast, h⟩ := Option.bind_eq_some_iff.mp h
      cases h
      obtain ⟨host, port, rfl, rfl, hport⟩ := strrchr_eq_some_iff.mp hlast
      exact ⟨host, [], port, .plain rfl hhead hport, rfl, rfl, Or.inr ⟨hhead, rfl⟩⟩
    · rintro ⟨host, gap, port, hsplit, rfl, rfl, hcase⟩
      cases hsplit with
      | bracketed => exact absurd rfl hhead
      | plain _ _ hport =>
        rcases hcase with ⟨hhead', -⟩ | ⟨-, rfl⟩
        · exact absurd hhead' hhead
        · have hlast : strrchr colon (host ++ colon :: port) = some (colon :: port) :=
            strrchr_eq_some_iff.mpr ⟨host, port, rfl, rfl, hport⟩
          simp only [hlast, bind, Option.bind_some, pure]

theorem AddrSplit.parts (h : AddrSplit host gap port text) :
    ∃ he, addrParts text = some (host ++ he, he, colon :: port) := by
  by_cases hhead : text.head? = some leftBracket
  · exact ⟨_, addrParts_eq_some_iff.mpr ⟨host, gap, port, h, rfl, rfl, Or.inl ⟨hhead, rfl⟩⟩⟩
  · exact ⟨_, addrParts_eq_some_iff.mpr ⟨host, gap, port, h, rfl, rfl, Or.inr ⟨hhead, rfl⟩⟩⟩

end Split

/-! ## The whole parser -/

section Parser

variable {addr : CString} {hostlen p : ℕ} {host : List UInt8}

theorem netParseAddr_eq_some_iff :
    netParseAddr addr hostlen = some (host, p) ↔
      ∃ scheme text gap port, FirstAt schemeSep addr.bytes scheme (schemeSep ++ text) ∧
        AddrSplit host gap port text ∧ host.length < hostlen ∧
        strtoul port = some (p, []) ∧ p ≤ 65535 := by
  unfold netParseAddr
  constructor
  · intro h
    obtain ⟨sep, hsep, h⟩ := Option.bind_eq_some_iff.mp h
    obtain ⟨scheme, hfirst⟩ := strstr_eq_some_iff.mp hsep
    obtain ⟨text, rfl⟩ := hfirst.here
    obtain ⟨⟨hs, he, ps⟩, hparts, h⟩ := Option.bind_eq_some_iff.mp h
    obtain ⟨host', gap, port, hsplit, rfl, rfl, -⟩ := addrParts_eq_some_iff.mp hparts
    have hlen : (host' ++ he).length - he.length = host'.length := by
      rw [List.length_append, Nat.add_sub_cancel]
    dsimp only at h
    rw [hlen, List.take_left] at h
    split at h
    · cases h
    · rename_i hfit
      obtain ⟨⟨v, rest⟩, hread, h⟩ := Option.bind_eq_some_iff.mp h
      dsimp only at h
      split at h
      · cases h
      · rename_i hend
        obtain ⟨rfl, rfl⟩ := Prod.mk.inj (Option.some.inj h)
        obtain ⟨hrest, hv⟩ := not_or.mp hend
        rw [not_not.mp hrest] at hread
        exact ⟨scheme, text, gap, port, hfirst, hsplit, Nat.lt_of_not_le hfit, hread,
          Nat.le_of_not_lt hv⟩
  · rintro ⟨scheme, text, gap, port, hfirst, hsplit, hfit, hread, hp⟩
    have hsep : strstr schemeSep addr.bytes = some (schemeSep ++ text) :=
      strstr_eq_some_iff.mpr ⟨scheme, hfirst⟩
    obtain ⟨he, hparts⟩ := hsplit.parts
    have hdrop : (schemeSep ++ text).drop 3 = text := rfl
    have hlen : (host ++ he).length - he.length = host.length := by
      rw [List.length_append, Nat.add_sub_cancel]
    simp only [hsep, hdrop, hparts, hlen, List.take_left, if_neg (Nat.not_le.mpr hfit),
      List.drop_succ_cons, List.drop_zero, hread, bind, Option.bind_some]
    rw [if_neg]
    rintro (hne | hlt)
    · exact hne rfl
    · omega

theorem text_unique {scheme scheme' text text' : List UInt8}
    (h : FirstAt schemeSep addr.bytes scheme (schemeSep ++ text))
    (h' : FirstAt schemeSep addr.bytes scheme' (schemeSep ++ text')) : text = text' :=
  List.append_cancel_left (h.unique h').2

theorem colon_notMem_digits {text : List UInt8} (h : ∀ b ∈ text, isDigit b = true) :
    colon ∉ text := fun hin => absurd (h colon hin) (by decide)

theorem ulongValue_of_le {v : ℕ} (h : v ≤ 65535) : ulongValue false v = v := by
  unfold ulongValue ulongMax
  rw [if_neg (by omega)]
  rfl

theorem ulongValue_le {v : ℕ} (h : ulongValue false v ≤ 65535) : ulongValue false v = v := by
  unfold ulongValue at h ⊢
  split at h
  · exact absurd h (by decide)
  · rename_i hv
    rw [if_neg hv]
    rfl

theorem HostPort.split {digits text : List UInt8} (h : HostPort host digits text)
    (hdigits : ∀ b ∈ digits, isDigit b = true) : AddrSplit host [] digits text := by
  cases h with
  | plain hhead => exact .plain rfl hhead (colon_notMem_digits hdigits)
  | bracketed hhost => exact .bracketed hhost (colon_notMem_digits hdigits)

theorem AddrSplit.hostPort {port text : List UInt8} (h : AddrSplit host [] port text) :
    HostPort host port text := by
  cases h with
  | plain _ hhead _ => exact .plain hhead
  | bracketed hhost _ => exact .bracketed hhost

theorem netParseAddr_of_documented (h : DocumentedAddr addr hostlen host p) :
    netParseAddr addr hostlen = some (host, p) := by
  obtain ⟨scheme, text, digits, hfirst, hform, hport, hfit⟩ := h
  refine netParseAddr_eq_some_iff.mpr
    ⟨scheme, text, [], digits, hfirst, HostPort.split hform hport.digits, hfit, ?_, hport.range⟩
  rw [strtoul_digits hport.nonempty hport.digits, hport.value, ulongValue_of_le hport.range]

theorem DocumentedAddr.strict (h : DocumentedAddr addr hostlen host p)
    {scheme text host' gap port : List UInt8}
    (hfirst : FirstAt schemeSep addr.bytes scheme (schemeSep ++ text))
    (hsplit : AddrSplit host' gap port text) :
    gap = [] ∧ port ≠ [] ∧ ∀ b ∈ port, isDigit b = true := by
  obtain ⟨scheme', text', digits, hfirst', hform, hport, -⟩ := h
  obtain rfl := text_unique hfirst hfirst'
  obtain ⟨-, rfl, rfl⟩ := hsplit.unique (HostPort.split hform hport.digits)
  exact ⟨rfl, hport.nonempty, hport.digits⟩

/-- The address divides into a host, a gap behind the closing bracket and a port in range, as
`strrchr` and `strtoul` see them, and the gap or what stands before the port's digits is there. -/
def LenientAddr (addr : CString) (hostlen : ℕ) : Prop :=
  ∃ scheme text host gap blanks mark digits,
    FirstAt schemeSep addr.bytes scheme (schemeSep ++ text) ∧
    AddrSplit host gap (blanks ++ (mark ++ digits)) text ∧ host.length < hostlen ∧
    Numeral blanks mark digits ∧ ulongValue (mark = [45]) (digitsValue digits) ≤ 65535 ∧
    (gap ≠ [] ∨ blanks ≠ [] ∨ mark ≠ [])

/-- INTERNAL: a lenient address is taken. -/
theorem LenientAddr.taken (h : LenientAddr addr hostlen) :
    ∃ host p, netParseAddr addr hostlen = some (host, p) ∧
      ¬ DocumentedAddr addr hostlen host p := by
  obtain ⟨scheme, text, host, gap, blanks, mark, digits, hfirst, hsplit, hfit, hn, hp, hmore⟩ := h
  refine ⟨host, _, netParseAddr_eq_some_iff.mpr ⟨scheme, text, gap, _, hfirst, hsplit, hfit,
    strtoul_eq_some_iff.mpr ⟨blanks, mark, digits, hn, rfl, rfl⟩, hp⟩, fun hdoc => ?_⟩
  obtain ⟨hgap, -, hdigits⟩ := DocumentedAddr.strict hdoc hfirst hsplit
  have hblanks : blanks = [] := List.eq_nil_iff_forall_not_mem.mpr fun b hb => by
    have hspace := isSpace_of_isDigit (hdigits b (List.mem_append_left _ hb))
    rw [hn.blanks b hb] at hspace
    cases hspace
  have hmark : mark = [] := by
    refine hn.mark.resolve_right ?_
    rintro (rfl | rfl)
    · exact absurd (hdigits 43 (List.mem_append_right _ List.mem_cons_self)) (by decide)
    · exact absurd (hdigits 45 (List.mem_append_right _ List.mem_cons_self)) (by decide)
  rcases hmore with hne | hne | hne
  · exact hne hgap
  · exact hne hblanks
  · exact hne hmark

/-- For every address and every buffer, `mb_net_parse_addr` takes exactly the documented form with
the documented result, if and only if the address is not lenient: where it divides into a host
that fits and a port in range, the last colon follows a closing bracket at once and neither blanks
nor a sign stand before the digits of the port.  SRC: net.c:18-64 -/
theorem parse_addr_documented_iff (addr : CString) (hostlen : ℕ) :
    (∀ host p, netParseAddr addr hostlen = some (host, p) ↔
      DocumentedAddr addr hostlen host p) ↔
    ¬ LenientAddr addr hostlen := by
  constructor
  · intro h hlenient
    obtain ⟨host, p, htaken, hnot⟩ := hlenient.taken
    exact hnot ((h host p).mp htaken)
  · intro hcond host p
    refine ⟨fun hparse => ?_, netParseAddr_of_documented⟩
    obtain ⟨scheme, text, gap, port, hfirst, hsplit, hfit, hread, hp⟩ :=
      netParseAddr_eq_some_iff.mp hparse
    obtain ⟨blanks, mark, digits, hn, rfl, hv⟩ := strtoul_eq_some_iff.mp hread
    have hmore : ¬ (gap ≠ [] ∨ blanks ≠ [] ∨ mark ≠ []) := fun hmore => hcond
      ⟨scheme, text, host, gap, blanks, mark, digits, hfirst, hsplit, hfit, hn, hv ▸ hp, hmore⟩
    simp only [not_or, not_not] at hmore
    obtain ⟨rfl, rfl, rfl⟩ := hmore
    have hvalue : digitsValue digits = p := (ulongValue_le (hv.symm ▸ hp)).symm.trans hv
    exact ⟨scheme, text, digits, hfirst, AddrSplit.hostPort hsplit,
      ⟨hn.nonempty, hn.digits, hvalue, hp⟩, hfit⟩

/-- `t://h: 80`. -/
def blankBeforePort : CString := ⟨[116, 58, 47, 47, 104, 58, 32, 56, 48], by decide⟩

/-- `t://[h]x:80`. -/
def junkBehindBracket : CString := ⟨[116, 58, 47, 47, 91, 104, 93, 120, 58, 56, 48], by decide⟩

/-- Both are taken as host `h` and port 80, and neither is documented. -/
theorem parse_addr_takes_undocumented :
    (netParseAddr blankBeforePort 256 = some ([104], 80) ∧
      ¬ DocumentedAddr blankBeforePort 256 [104] 80) ∧
    netParseAddr junkBehindBracket 256 = some ([104], 80) ∧
      ¬ DocumentedAddr junkBehindBracket 256 [104] 80 := by
  refine ⟨⟨by decide, fun h => ?_⟩, by decide, fun h => ?_⟩
  · have hsep : strstr schemeSep blankBeforePort.bytes =
        some (schemeSep ++ [104, 58, 32, 56, 48]) := by decide
    obtain ⟨scheme, hfirst⟩ := strstr_eq_some_iff.mp hsep
    have hsplit : AddrSplit [104] [] [32, 56, 48] ([104] ++ colon :: [32, 56, 48]) :=
      .plain rfl (by decide) (by decide)
    exact absurd ((DocumentedAddr.strict h hfirst hsplit).2.2 32 List.mem_cons_self) (by decide)
  · have hsep : strstr schemeSep junkBehindBracket.bytes =
        some (schemeSep ++ [91, 104, 93, 120, 58, 56, 48]) := by decide
    obtain ⟨scheme, hfirst⟩ := strstr_eq_some_iff.mp hsep
    have hsplit : AddrSplit [104] [120] [56, 48]
        (leftBracket :: ([104] ++ rightBracket :: ([120] ++ colon :: [56, 48]))) :=
      .bracketed (by decide) (by decide)
    exact absurd (DocumentedAddr.strict h hfirst hsplit).1 (by decide)

end Parser

end MsgBroker.Analysis.NetAddr
