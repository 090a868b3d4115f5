import MsgBroker.Analysis.WsHashes
import MsgBroker.Analysis.WsText

/-!
# The accept value of the WebSocket handshake

RFC 6455 derives the accept value from the key and a fixed text.
-/

set_option autoImplicit false

namespace MsgBroker.Analysis.WsHandshake

open Lib Model

/-- The text RFC 6455 appends to the key. -/
def rfcGuid : List UInt8 := ascii "258EAFA5-E914-47DA-95CA-C5AB0DC85B11"

/-- The accept value of RFC 6455, section 4.2.2. -/
def rfcAccept (key : List UInt8) : List UInt8 := base64 (sha1 (key ++ rfcGuid))

/-! ## The server -/

section Server

/-- The name of the header with the key. -/
def keyName : List UInt8 := ascii "Sec-WebSocket-Key:"

/-- The first key header of a request has this value: what stands between the blanks after its
name and the end of the line. -/
def KeyLine (req key : List UInt8) : Prop :=
  ∃ a blanks post, FirstAt keyName (cstr req) a (keyName ++ (blanks ++ (key ++ (crlf ++ post)))) ∧
    (∀ b ∈ blanks, b = 32) ∧ key.head? ≠ some 32 ∧
      FirstAt crlf (key ++ (crlf ++ post)) key (crlf ++ post)

theorem dropWhile_blanks {p : UInt8 → Bool} {blanks rest : List UInt8}
    (hblanks : ∀ b ∈ blanks, p b = true) (hrest : ∀ b, rest.head? = some b → p b = false) :
    (blanks ++ rest).dropWhile p = rest := by
  rw [List.dropWhile_append_of_pos hblanks]
  cases rest with
  | nil => rfl
  | cons b rest => rw [List.dropWhile_cons_of_neg (by simp [hrest b rfl])]

theorem bwsKey_eq_some_iff {req key : List UInt8} : bwsKey req = some key ↔ KeyLine req key := by
  constructor
  · intro h
    obtain ⟨rest, hrest, h⟩ := Option.bind_eq_some_iff.mp h
    obtain ⟨tail, htail, h⟩ := Option.bind_eq_some_iff.mp h
    obtain ⟨p, hp, rfl⟩ := Option.map_eq_some_iff.mp hrest
    obtain ⟨a, hname⟩ := strstr_eq_some_iff.mp hp
    obtain ⟨q, rfl⟩ := hname.here
    obtain ⟨k, hend⟩ := strstr_eq_some_iff.mp htail
    obtain ⟨post, rfl⟩ := hend.here
    rw [List.drop_left] at hend h
    have hkey : key = k := by
      rw [← Option.some.inj h, hend.split, List.length_append, Nat.add_sub_cancel_right,
        List.take_left]
    subst hkey
    refine ⟨a, q.takeWhile (· = 32), post, ?_, ?_, ?_, ?_⟩
    · rw [← hend.split, List.takeWhile_append_dropWhile]
      exact hname
    · intro b hb
      have hblank := List.mem_takeWhile_imp hb
      exact of_decide_eq_true hblank
    · intro hhead
      have hfirst : (q.dropWhile (· = 32)).head? = some 32 := by
        rw [hend.split, List.head?_append, hhead]
        rfl
      have hnot := List.head?_dropWhile_not (fun b : UInt8 => decide (b = 32)) q
      rw [hfirst] at hnot
      exact Bool.noConfusion hnot
    · rw [← hend.split]
      exact hend
  · rintro ⟨a, blanks, post, hname, hblanks, hhead, hend⟩
    have hskip : (blanks ++ (key ++ (crlf ++ post))).dropWhile (· = 32) =
        key ++ (crlf ++ post) := by
      refine dropWhile_blanks (fun b hb => decide_eq_true (hblanks b hb)) fun b hb => ?_
      refine decide_eq_false fun hcon => ?_
      subst hcon
      cases key with
      | nil => cases hb
      | cons c key => exact hhead hb
    have hfind : wsFindHeader (cstr req) keyName = some (key ++ (crlf ++ post)) := by
      rw [wsFindHeader, strstr_eq_some_iff.mpr ⟨a, hname⟩, Option.map_some, List.drop_left, hskip]
    show (wsFindHeader (cstr req) keyName).bind _ = some key
    rw [hfind, Option.bind_some, strstr_eq_some_iff.mpr ⟨key, hend⟩]
    show some ((key ++ (crlf ++ post)).take _) = some key
    rw [List.length_append, Nat.add_sub_cancel_right, List.take_left]

/-- The accept value of the source. -/
def ownAccept (key : List UInt8) : List UInt8 := base64 (sha1 (key ++ wsAcceptKey))

/-- INTERNAL: **what `mb_bws_do_handshake` does with a key** of at most 92 bytes.
SRC: bws.c:279-297 -/
theorem bwsDoHandshake_key {rs : List HttpRead} {key : List UInt8}
    (hkey : (wsReadHttp rs).bind bwsKey = some key) (hlen : key.length ≤ 92)
    (answer : Option (ℕ → UInt8)) (ws : List (Answer Unit)) :
    bwsDoHandshake rs answer ws =
      some (if answer.isSome then ((writeHttp ws (bwsResponse (ownAccept key))).2,
        (writeHttp ws (bwsResponse (ownAccept key))).1) else (false, [])) := by
  have hguid : wsAcceptKey.length = 36 := by decide
  have hshort : (key ++ wsAcceptKey).length < 2 ^ 61 := by
    rw [List.length_append]
    omega
  have hhash := mbSha1_answer hshort answer
  unfold bwsDoHandshake
  rw [hkey]
  dsimp only
  rw [if_neg (by omega), hhash]
  cases answer with
  | none => rfl
  | some bytes =>
    rw [Option.map_some]
    dsimp only
    rw [b64Encode_eq]
    rfl

theorem bwsDoHandshake_ok {rs : List HttpRead} {answer : Option (ℕ → UInt8)}
    {ws : List (Answer Unit)} {sent : List UInt8}
    (h : bwsDoHandshake rs answer ws = some (true, sent)) :
    ∃ req key, wsReadHttp rs = some req ∧ KeyLine req key ∧ key.length ≤ 92 ∧
      sent = bwsResponse (ownAccept key) := by
  have hguid : wsAcceptKey.length = 36 := by decide
  cases hread : (wsReadHttp rs).bind bwsKey with
  | none =>
    rw [bwsDoHandshake, hread] at h
    cases h
  | some key =>
    by_cases hlen : key.length ≤ 92
    · rw [bwsDoHandshake_key hread hlen] at h
      obtain ⟨req, hreq, hkey⟩ := Option.bind_eq_some_iff.mp hread
      refine ⟨req, key, hreq, bwsKey_eq_some_iff.mp hkey, hlen, ?_⟩
      cases answer with
      | none => cases h
      | some bytes =>
        obtain ⟨hdone, rfl⟩ := Prod.mk.inj (Option.some.inj h)
        exact writeHttp_done hdone
    · rw [bwsDoHandshake, hread] at h
      dsimp only at h
      rw [if_pos (by omega)] at h
      cases h

/-- **Every key of at most 92 bytes is answered**, if its request arrives, the hash can be computed
and the response can be written. -/
theorem bwsDoHandshake_answers {req key : List UInt8} (hreq : Head req) (hfits : req.length ≤ 4095)
    (hkey : KeyLine req key) (hlen : key.length ≤ 92) {rs : List HttpRead} (hstop : .stop ∉ rs)
    (hbytes : req <+: bytesOf rs) (bytes : ℕ → UInt8) {ws : List (Answer Unit)}
    (hws : (writeHttp ws (bwsResponse (ownAccept key))).2 = true) :
    bwsDoHandshake rs (some bytes) ws = some (true, bwsResponse (ownAccept key)) := by
  have hread : (wsReadHttp rs).bind bwsKey = some key := by
    rw [wsReadHttp_eq hreq hfits hstop hbytes, Option.bind_some]
    exact bwsKey_eq_some_iff.mpr hkey
  rw [bwsDoHandshake_key hread hlen, Option.isSome_some, if_pos rfl, hws, writeHttp_done hws]

theorem accept_eq_rfc_iff (key guid : List UInt8) :
    base64 (sha1 (key ++ guid)) = rfcAccept key ↔ sha1 (key ++ guid) = sha1 (key ++ rfcGuid) :=
  ⟨base64_inj, congrArg base64⟩

end Server

/-! ## The client -/

section Client

/-- What OpenSSL documents of its `SHA1`: it computes the digest of FIPS 180-4. -/
def OpensslSha1 (SHA1 : List UInt8 → List UInt8) : Prop :=
  ∀ data : List UInt8, data.length < 2 ^ 61 → SHA1 data = sha1 data

/-- The name of the header with the accept value, as the client spells it. -/
def acceptName : List UInt8 := ascii "Sec-WebSocket-Accept:"

/-- A blank or a tab. -/
def isBlank (b : UInt8) : Bool := b = 32 ∨ b = 9

/-- Behind the first occurrence of the name in the text, and blanks, stands this value, and then
nothing more, the end of the line or a blank. -/
def Finds (value text : List UInt8) : Prop :=
  ∃ a blanks rest, FirstAt acceptName (cstr text) a (acceptName ++ (blanks ++ (value ++ rest))) ∧
    (∀ b ∈ blanks, isBlank b = true) ∧ ∀ c, rest.head? = some c → c = 13 ∨ c = 10 ∨ c = 32

theorem dropWhile_isBlank {blanks value : List UInt8} (hblanks : ∀ b ∈ blanks, isBlank b = true)
    (hne : value ≠ []) (hvalue : ∀ b ∈ value, isBlank b = false) (rest : List UInt8) :
    (blanks ++ (value ++ rest)).dropWhile isBlank = value ++ rest := by
  refine dropWhile_blanks hblanks fun b hb => ?_
  cases value with
  | nil => exact absurd rfl hne
  | cons c value =>
    obtain rfl : c = b := Option.some.inj hb
    exact hvalue c List.mem_cons_self

/-- INTERNAL: the comparison with the value behind the blanks.  SRC: cws.c:179-189 -/
theorem cwsValue_iff {expected q : List UInt8} (hne : expected ≠ [])
    (hblank : ∀ b ∈ expected, isBlank b = false) :
    (∃ blanks rest, q = blanks ++ (expected ++ rest) ∧ (∀ b ∈ blanks, isBlank b = true) ∧
        ∀ c, rest.head? = some c → c = 13 ∨ c = 10 ∨ c = 32) ↔
      (if ¬ expected <+: q.dropWhile isBlank then false
        else match (q.dropWhile isBlank).drop expected.length with
          | [] => true
          | c :: _ => decide (c = 13 ∨ c = 10 ∨ c = 32)) = true := by
  constructor
  · rintro ⟨blanks, rest, rfl, hblanks, hrest⟩
    rw [dropWhile_isBlank hblanks hne hblank, if_neg (not_not.mpr (List.prefix_append _ _)),
      List.drop_left]
    cases rest with
    | nil => rfl
    | cons c rest => exact decide_eq_true (hrest c rfl)
  · intro h
    split_ifs at h with hpre
    · obtain ⟨rest, hsplit⟩ := hpre
      refine ⟨q.takeWhile isBlank, rest, ?_, fun b hb => List.mem_takeWhile_imp hb, ?_⟩
      · rw [hsplit, List.takeWhile_append_dropWhile]
      · rw [← hsplit, List.drop_left] at h
        intro c hc
        cases rest with
        | nil => cases hc
        | cons d rest =>
          obtain rfl : d = c := Option.some.inj hc
          exact of_decide_eq_true h

/-- INTERNAL: the value is looked for behind the first occurrence of the name. -/
theorem finds_iff {text a q : List UInt8} (hname : FirstAt acceptName (cstr text) a (acceptName ++ q))
    (value : List UInt8) :
    Finds value text ↔ ∃ blanks rest, q = blanks ++ (value ++ rest) ∧
      (∀ b ∈ blanks, isBlank b = true) ∧
        ∀ c, rest.head? = some c → c = 13 ∨ c = 10 ∨ c = 32 := by
  constructor
  · rintro ⟨a', blanks, rest, hname', hrest⟩
    exact ⟨blanks, rest, List.append_cancel_left (hname.unique hname').2, hrest⟩
  · rintro ⟨blanks, rest, rfl, hrest⟩
    exact ⟨a, blanks, rest, hname, hrest⟩

/-- INTERNAL: **what the client makes of a response**: it looks for the value it expects. -/
theorem cwsAccepts_iff {expected text : List UInt8} (hne : expected ≠ [])
    (hblank : ∀ b ∈ expected, isBlank b = false) :
    cwsAccepts expected text = true ↔
      (ascii "HTTP/1.1 101" <+: text ∨ ascii "HTTP/1.0 101" <+: text) ∧ Finds expected text := by
  by_cases hstatus : ascii "HTTP/1.1 101" <+: text ∨ ascii "HTTP/1.0 101" <+: text
  · rw [and_iff_right hstatus]
    unfold cwsAccepts
    rw [if_neg fun h => hstatus.elim h.1 h.2]
    cases hfind : strstr (ascii "Sec-WebSocket-Accept:") (cstr text) with
    | none =>
      refine iff_of_false Bool.false_ne_true ?_
      rintro ⟨a, blanks, rest, hname, -⟩
      cases hfind.symm.trans (strstr_eq_some_iff.mpr ⟨a, hname⟩)
    | some p =>
      obtain ⟨a, hname⟩ := strstr_eq_some_iff.mp hfind
      obtain ⟨q, rfl⟩ := hname.here
      rw [finds_iff hname, cwsValue_iff hne hblank]
      show (if ¬ expected <+: ((acceptName ++ q).drop acceptName.length).dropWhile isBlank then false
        else match (((acceptName ++ q).drop acceptName.length).dropWhile isBlank).drop
            expected.length with
          | [] => true
          | c :: _ => decide (c = 13 ∨ c = 10 ∨ c = 32)) = true ↔ _
      rw [List.drop_left]
  · refine iff_of_false ?_ fun h => hstatus h.1
    unfold cwsAccepts
    rw [if_pos (not_or.mp hstatus)]
    exact Bool.false_ne_true

end Client

/-! ## Responses of other servers -/

section Response

/-- A letter in lower case. -/
def lower (b : UInt8) : UInt8 := if 65 ≤ b ∧ b ≤ 90 then b + 32 else b

/-- A 101 response, cut at its accept header: the minor version and the reason phrase with the blank
before it, the header fields before, the name as the server spells it, the white space around the
value, and what comes after that line. -/
structure Response where
  minor : UInt8
  reason : List UInt8
  before : List UInt8
  name : List UInt8
  lead : List UInt8
  trail : List UInt8
  after : List UInt8

namespace Response

/-- The response up to the accept header. -/
def start (r : Response) : List UInt8 :=
  ascii "HTTP/1." ++ r.minor :: (ascii " 101" ++ r.reason ++ crlf ++ r.before)

/-- The response with this accept value. -/
def bytes (r : Response) (accept : List UInt8) : List UInt8 :=
  r.start ++ (r.name ++ 58 :: (r.lead ++ (accept ++ (r.trail ++ (crlf ++ r.after)))))

/-- **A response as RFC 6455 and the grammar of HTTP allow it**: of a version from 1.1 on; the name
of the header in upper or lower case; white space around its value, also with folded lines; any
other header fields, and any length. -/
structure Conforms (r : Response) (accept : List UInt8) : Prop where
  version : 49 ≤ r.minor ∧ r.minor ≤ 57
  reason : r.reason.head? = some 32 ∧ 13 ∉ r.reason
  fields : r.before = [] ∨ crlf <:+ r.before
  name : r.name.map lower = ascii "sec-websocket-accept"
  space : ∀ b ∈ r.lead ++ r.trail, b = 32 ∨ b = 9 ∨ b = 13 ∨ b = 10
  head : Head (r.bytes accept)
  noNul : 0 ∉ r.bytes accept

/-- What the client has room for. -/
def seen (r : Response) (accept : List UInt8) : List UInt8 := (r.bytes accept).take 4095

/-- The header is what the client finds: it has the spelling of the client, and the same text does
not stand in the response before it. -/
def InFront (r : Response) (accept : List UInt8) : Prop :=
  ∃ rest, FirstAt acceptName (r.seen accept) r.start rest

/-- The length of the response up to the end of the value. -/
def valueEnd (r : Response) (accept : List UInt8) : ℕ :=
  r.start.length + 21 + r.lead.length + accept.length

/-- The client reads the value of the header: it finds the header, there is no folded line before
the value and no tab behind it, and the value has room in the buffer. -/
structure Legible (r : Response) (accept : List UInt8) : Prop where
  found : r.InFront accept
  lead : ∀ b ∈ r.lead, isBlank b = true
  fits : r.valueEnd accept ≤ 4095
  trail : r.trail.head? = some 9 → r.valueEnd accept = 4095

end Response

/-- INTERNAL: white space before a value that is found is blanks, and none of it is missing. -/
theorem lead_of_take {lead x own rest : List UInt8}
    (hlead : ∀ b ∈ lead, b = 32 ∨ b = 9 ∨ b = 13 ∨ b = 10) (hne : own ≠ [])
    (hown : ∀ b ∈ own, b ≠ 32 ∧ b ≠ 9 ∧ b ≠ 13 ∧ b ≠ 10) {m : ℕ} {blanks : List UInt8}
    (heq : (lead ++ x).take m = blanks ++ (own ++ rest))
    (hblanks : ∀ b ∈ blanks, isBlank b = true) :
    (∀ b ∈ lead, isBlank b = true) ∧ lead.length ≤ m ∧
      ∃ blanks', x.take (m - lead.length) = blanks' ++ (own ++ rest) ∧
        ∀ b ∈ blanks', isBlank b = true := by
  induction lead generalizing m blanks with
  | nil => exact ⟨List.forall_mem_nil _, Nat.zero_le _, blanks, heq, hblanks⟩
  | cons b lead ih =>
    obtain ⟨hb, hlead⟩ := List.forall_mem_cons.mp hlead
    cases m with
    | zero =>
      obtain ⟨-, hnil⟩ := List.append_eq_nil_iff.mp heq.symm
      exact absurd (List.append_eq_nil_iff.mp hnil).1 hne
    | succ m =>
      cases blanks with
      | nil =>
        cases own with
        | nil => exact absurd rfl hne
        | cons c own =>
          obtain rfl : b = c := (List.cons.inj heq).1
          obtain ⟨h32, h9, h13, h10⟩ := hown b List.mem_cons_self
          simp [h32, h9, h13, h10] at hb
      | cons c blanks =>
        obtain ⟨rfl, hrest⟩ := List.cons.inj heq
        obtain ⟨hc, hblanks⟩ := List.forall_mem_cons.mp hblanks
        obtain ⟨hall, hle, hx⟩ := ih hlead hrest hblanks
        refine ⟨List.forall_mem_cons.mpr ⟨hc, hall⟩, Nat.succ_le_succ hle, ?_⟩
        rwa [List.length_cons, Nat.add_sub_add_right]

/-- INTERNAL: a value behind white space, of which the first `m` bytes are seen. -/
theorem value_iff {lead accept own trail : List UInt8} (after : List UInt8)
    (hlead : ∀ b ∈ lead, b = 32 ∨ b = 9 ∨ b = 13 ∨ b = 10)
    (htrail : ∀ b ∈ trail, b = 32 ∨ b = 9 ∨ b = 13 ∨ b = 10) (hne : own ≠ [])
    (hlen : own.length = accept.length) (haccept : ∀ b ∈ accept, isBlank b = false)
    (hown : ∀ b ∈ own, b ≠ 32 ∧ b ≠ 9 ∧ b ≠ 13 ∧ b ≠ 10) (m : ℕ) :
    (∃ blanks rest, (lead ++ (accept ++ (trail ++ (crlf ++ after)))).take m =
        blanks ++ (own ++ rest) ∧ (∀ b ∈ blanks, isBlank b = true) ∧
          ∀ c, rest.head? = some c → c = 13 ∨ c = 10 ∨ c = 32) ↔
      ((∀ b ∈ lead, isBlank b = true) ∧ lead.length + accept.length ≤ m ∧
        (trail.head? = some 9 → lead.length + accept.length = m)) ∧ own = accept := by
  have hownBlank : ∀ b ∈ own, isBlank b = false := fun b hb =>
    decide_eq_false (not_or.mpr ⟨(hown b hb).1, (hown b hb).2.1⟩)
  constructor
  · rintro ⟨blanks, rest, heq, hblanks, hrest⟩
    obtain ⟨hall, hle, blanks', hvalue, hblanks'⟩ := lead_of_take hlead hne hown heq hblanks
    -- The value follows at once: it does not begin with a blank.
    obtain rfl : blanks' = [] := by
      cases blanks' with
      | nil => rfl
      | cons c blanks' =>
        have hhead := congrArg List.head? hvalue
        rw [List.head?_take, List.cons_append, List.head?_cons] at hhead
        split_ifs at hhead
        cases accept with
        | nil =>
          exact absurd (List.length_eq_zero_iff.mp hlen) hne
        | cons d accept =>
          obtain rfl : d = c := Option.some.inj hhead
          have hd := haccept d List.mem_cons_self
          rw [hblanks' d List.mem_cons_self] at hd
          cases hd
    have hroom := congrArg List.length hvalue
    simp only [List.nil_append, List.length_take, List.length_append] at hroom
    rw [List.nil_append, List.take_append, List.take_of_length_le (by omega)] at hvalue
    obtain ⟨rfl, htail⟩ := List.append_inj hvalue hlen.symm
    refine ⟨⟨hall, by omega, fun htab => ?_⟩, rfl⟩
    by_contra hmore
    cases trail with
    | nil => cases htab
    | cons c trail =>
      obtain rfl : c = 9 := Option.some.inj htab
      have hhead := congrArg List.head? htail
      rw [List.head?_take, if_neg (by omega)] at hhead
      exact absurd (hrest 9 hhead.symm) (by decide)
  · rintro ⟨⟨hblanks, hfits, htab⟩, rfl⟩
    refine ⟨lead, (trail ++ (crlf ++ after)).take (m - lead.length - own.length), ?_, hblanks, ?_⟩
    · rw [List.take_append, List.take_of_length_le (by omega), List.take_append,
        List.take_of_length_le (by omega)]
    · intro c hc
      rw [List.head?_take] at hc
      split_ifs at hc with hzero
      cases trail with
      | nil => exact Or.inl (Option.some.inj hc).symm
      | cons d trail =>
        obtain rfl : d = c := Option.some.inj hc
        rcases htrail d List.mem_cons_self with h | rfl | h | h
        · exact Or.inr (Or.inr h)
        · have := htab rfl
          omega
        · exact Or.inl h
        · exact Or.inr (Or.inl h)

variable {r : Response} {accept own : List UInt8}

/-- INTERNAL: the client takes the versions 1.0 and 1.1. -/
theorem Response.Conforms.status_iff (h : r.Conforms accept) :
    (ascii "HTTP/1.1 101" <+: r.seen accept ∨ ascii "HTTP/1.0 101" <+: r.seen accept) ↔
      r.minor = 49 := by
  have hpre : ∀ d : UInt8, ascii "HTTP/1." ++ d :: ascii " 101" <+: r.seen accept ↔ d = r.minor := by
    intro d
    have hbytes : r.bytes accept = ascii "HTTP/1." ++ r.minor :: (ascii " 101" ++ (r.reason ++ crlf ++
        r.before ++ (r.name ++ 58 :: (r.lead ++ (accept ++ (r.trail ++ (crlf ++ r.after))))))) := by
      simp [Response.bytes, Response.start]
    have hlen : (ascii "HTTP/1." ++ d :: ascii " 101").length = 12 := by
      rw [List.length_append, List.length_cons]
      decide
    rw [Response.seen, List.prefix_take_iff, hlen, and_iff_left (by decide), hbytes,
      List.prefix_append_right_inj, List.cons_prefix_cons,
      and_iff_left (List.prefix_append _ _)]
  have hone : ascii "HTTP/1.1 101" = ascii "HTTP/1." ++ 49 :: ascii " 101" := by decide
  have hzero : ascii "HTTP/1.0 101" = ascii "HTTP/1." ++ 48 :: ascii " 101" := by decide
  rw [hone, hzero, hpre, hpre]
  constructor
  · rintro (h' | h')
    · exact h'.symm
    · have hge := h.version.1
      rw [← h'] at hge
      exact absurd hge (by decide)
  · exact fun h' => Or.inl h'.symm

/-- INTERNAL: where the client finds the header. -/
theorem Response.Conforms.found (h : r.Conforms accept) (hfound : r.InFront accept) :
    r.start.length + 21 ≤ 4095 ∧
      FirstAt acceptName (cstr (r.seen accept)) r.start
        (acceptName ++ (r.lead ++ (accept ++ (r.trail ++ (crlf ++ r.after)))).take
          (4095 - r.start.length - 21)) := by
  obtain ⟨rest, hfirst⟩ := hfound
  have hnul : cstr (r.seen accept) = r.seen accept :=
    List.takeWhile_eq_self_iff.mpr fun b hb => decide_eq_true fun hcon =>
      h.noNul (hcon ▸ List.mem_of_mem_take hb)
  have hname : acceptName.length = 21 := by decide
  have hlower : r.name.length = 20 := by
    have hlen := congrArg List.length h.name
    rw [List.length_map] at hlen
    exact hlen.trans (by decide)
  have hsplit := hfirst.split
  have hroom := congrArg List.length hsplit
  have hhere := hfirst.here.length_le
  rw [Response.seen, List.length_take, List.length_append] at hroom
  have hfits : r.start.length + 21 ≤ 4095 := by omega
  refine ⟨hfits, ?_⟩
  rw [Response.seen, Response.bytes, List.take_append, List.take_of_length_le (by omega)] at hsplit
  have hrest := List.append_cancel_left hsplit
  -- The name and the colon are the 21 bytes the client looks for.
  have hspelled : r.name ++ [58] = acceptName := by
    have hpre := hfirst.here
    rw [← hrest, List.append_cons] at hpre
    have hcolon : r.name ++ [58] <+: ((r.name ++ [58]) ++ (r.lead ++ (accept ++ (r.trail ++
        (crlf ++ r.after))))).take (4095 - r.start.length) := by
      rw [List.prefix_take_iff, List.length_append, List.length_singleton]
      exact ⟨List.prefix_append _ _, by omega⟩
    refine (List.prefix_of_prefix_length_le hcolon hpre ?_).eq_of_length ?_ <;>
      rw [List.length_append, List.length_singleton] <;> omega
  rw [List.append_cons, hspelled, List.take_append, List.take_of_length_le (by omega), hname]
    at hrest
  rw [hnul, hrest]
  exact hfirst

/-- INTERNAL: **the client and a conforming response** with the value `accept`, where `own` is the
value that the client expects. -/
theorem Response.Conforms.accepts_iff (h : r.Conforms accept) (hne : own ≠ [])
    (hlen : own.length = accept.length) (haccept : ∀ b ∈ accept, isBlank b = false)
    (hown : ∀ b ∈ own, b ≠ 32 ∧ b ≠ 9 ∧ b ≠ 13 ∧ b ≠ 10) :
    cwsAccepts own (r.seen accept) = true ↔ r.minor = 49 ∧
      (r.Legible accept ∧ own = accept ∨ ¬ r.InFront accept ∧ Finds own (r.seen accept)) := by
  have hblank : ∀ b ∈ own, isBlank b = false := fun b hb =>
    decide_eq_false (not_or.mpr ⟨(hown b hb).1, (hown b hb).2.1⟩)
  rw [cwsAccepts_iff hne hblank, h.status_iff]
  refine and_congr_right fun _ => ?_
  by_cases hfound : r.InFront accept
  · obtain ⟨hroom, hfirst⟩ := h.found hfound
    obtain ⟨hlead, htrail⟩ := List.forall_mem_append.mp h.space
    have hvalue := value_iff r.after hlead htrail hne hlen haccept hown
      (4095 - r.start.length - 21)
    rw [finds_iff hfirst, hvalue, or_iff_left fun hcon => hcon.1 hfound]
    refine and_congr_left fun _ => ?_
    constructor
    · rintro ⟨hblanks, hfits, htab⟩
      refine ⟨hfound, hblanks, ?_, fun hhead => ?_⟩
      · unfold Response.valueEnd
        omega
      · have := htab hhead
        unfold Response.valueEnd
        omega
    · rintro ⟨-, hblanks, hfits, htab⟩
      unfold Response.valueEnd at hfits htab
      refine ⟨hblanks, by omega, fun hhead => ?_⟩
      have := htab hhead
      omega
  · rw [and_iff_right hfound, or_iff_right fun hcon => hfound hcon.1.found]

/-- The response of the server of this program. -/
def reply : Response where
  minor := 49
  reason := ascii " Switching Protocols"
  before := ascii "Upgrade: websocket\r\n" ++ ascii "Connection: Upgrade\r\n"
  name := ascii "Sec-WebSocket-Accept"
  lead := [32]
  trail := []
  after := crlf

theorem reply_bytes (accept : List UInt8) : reply.bytes accept = bwsResponse accept := by
  simp [Response.bytes, Response.start, reply, bwsResponse, ascii, crlf]

theorem length_bwsResponse (accept : List UInt8) :
    (bwsResponse accept).length = 101 + accept.length := by
  simp [bwsResponse, ascii, crlf]
  omega

/-- INTERNAL: **the server's response conforms, and the client can read it.** -/
theorem reply_conforms (hplain : Plain accept) (hlen : accept.length = 28) :
    reply.Conforms accept ∧ reply.Legible accept := by
  let lines := [ascii "Upgrade: websocket", ascii "Connection: Upgrade"] ++
    (acceptName ++ ([32] ++ accept)) :: []
  have htext : reply.bytes accept =
      httpText (ascii "HTTP/1.1 101 Switching Protocols" :: lines) := by
    rw [reply_bytes]
    simp [bwsResponse, lines, httpText, ascii, acceptName, crlf]
  have hvalue : Line (acceptName ++ ([32] ++ accept)) :=
    (Line.of_all (l := acceptName) (by decide)).append
      (List.forall_mem_append.mpr ⟨Plain.of_all (by decide), hplain⟩)
  have hlines : ∀ l ∈ ascii "HTTP/1.1 101 Switching Protocols" :: lines, Line l := by
    simp only [lines, List.forall_mem_append, List.forall_mem_cons, hvalue, true_and]
    exact ⟨.of_all (by decide), ⟨.of_all (by decide), .of_all (by decide), by simp⟩, by simp⟩
  have hno : ∀ {l : List UInt8}, 65 ∉ l → ¬ acceptName <:+: l :=
    fun hl hi => hl (hi.subset (by decide))
  have hbefore : ∀ l ∈ [ascii "HTTP/1.1 101 Switching Protocols", ascii "Upgrade: websocket",
      ascii "Connection: Upgrade"], ¬ acceptName <:+: l := by
    simp only [List.forall_mem_cons]
    exact ⟨hno (by decide), hno (by decide), hno (by decide), by simp⟩
  have hname := firstAt_header (by decide : 13 ∉ acceptName) (by decide) hbefore
    ([32] ++ accept) []
  have hstart : reply.start = [ascii "HTTP/1.1 101 Switching Protocols",
      ascii "Upgrade: websocket", ascii "Connection: Upgrade"].flatMap (· ++ crlf) := by decide
  have hseen : reply.seen accept = reply.bytes accept := by
    rw [Response.seen, reply_bytes, List.take_of_length_le]
    rw [length_bwsResponse, hlen]
    decide
  have hend : reply.valueEnd accept = 125 := by
    rw [Response.valueEnd, hlen]
    decide
  have hfound : reply.InFront accept := by
    rw [Response.InFront, hseen, htext, hstart]
    exact ⟨_, hname⟩
  refine ⟨⟨by decide, by decide, Or.inr ?_, by decide, ?_, ?_, ?_⟩,
    ⟨hfound, List.forall_mem_singleton.mpr rfl, by omega, fun h => absurd h (by decide)⟩⟩
  · exact ⟨ascii "Upgrade: websocket\r\n" ++ ascii "Connection: Upgrade", by decide⟩
  · exact fun b hb => Or.inl (List.mem_singleton.mp hb)
  · rw [htext]
    exact head_httpText hlines
  · rw [htext]
    exact fun hmem => httpText_noNul hlines 0 hmem rfl

end Response

section Client

variable {SHA1 : List UInt8 → List UInt8} {nonce host : List UInt8} {port : ℕ}
  {ws : List (Answer Unit)}

/-- INTERNAL: the value the client expects, as OpenSSL computes it. -/
theorem cwsExpected_eq (hSHA1 : OpensslSha1 SHA1) {key : List UInt8} (hlen : key.length ≤ 92) :
    cwsExpected SHA1 key = base64 (sha1 (key ++ wsMagic)) := by
  have hmagic : wsMagic.length = 36 := by decide
  rw [cwsExpected, b64Encode_eq, hSHA1]
  rw [List.length_append]
  omega

/-- INTERNAL: a request that is written, and the response that is read then.
SRC: cws.c:123-170 -/
theorem cwsDoHandshake_written (SHA1 : List UInt8 → List UInt8) (crs : List HttpRead)
    (h : (writeHttp ws (cwsRequest host port (b64Encode nonce))).2 = true) :
    cwsDoHandshake SHA1 nonce host port ws crs =
      (((cwsReadHttp crs).map (cwsAccepts (cwsExpected SHA1 (b64Encode nonce)))).getD false,
        cwsRequest host port (b64Encode nonce)) := by
  have hdone := writeHttp_done h
  unfold cwsDoHandshake
  dsimp only
  rcases hw : writeHttp ws (cwsRequest host port (b64Encode nonce)) with ⟨sent, done⟩
  rw [hw] at h hdone
  obtain rfl : done = true := h
  obtain rfl : sent = cwsRequest host port (b64Encode nonce) := hdone
  cases cwsReadHttp crs with
  | none => rfl
  | some resp => rfl

/-- INTERNAL: **the client and a conforming response** with any accept value of the right form. -/
theorem cwsDoHandshake_iff (hSHA1 : OpensslSha1 SHA1) (hnonce : nonce.length = 16)
    (hws : (writeHttp ws (cwsRequest host port (base64 nonce))).2 = true) {crs : List HttpRead}
    {r : Response} {digest : List UInt8} (hdigest : digest.length = 20) (hstop : .stop ∉ crs)
    (hbytes : r.bytes (base64 digest) <+: bytesOf crs) (hconf : r.Conforms (base64 digest)) :
    (cwsDoHandshake SHA1 nonce host port ws crs).1 = true ↔ r.minor = 49 ∧
      (r.Legible (base64 digest) ∧ sha1 (base64 nonce ++ wsMagic) = digest ∨
        ¬ r.InFront (base64 digest) ∧
          Finds (base64 (sha1 (base64 nonce ++ wsMagic))) (r.seen (base64 digest))) := by
  have hkey : (base64 nonce).length = 24 := by rw [length_base64, hnonce]
  have hlen : ∀ d : List UInt8, d.length = 20 → (base64 d).length = 28 := fun d hd => by
    rw [length_base64, hd]
  have hown := hlen _ (length_sha1 (base64 nonce ++ wsMagic))
  have hblank : ∀ b ∈ base64 digest, isBlank b = false :=
    forall_mem_base64 (by decide) (by decide) _
  rw [← b64Encode_eq nonce] at hws
  rw [cwsDoHandshake_written SHA1 crs hws, cwsReadHttp_eq hconf.head hstop hbytes, Option.map_some,
    Option.getD_some, b64Encode_eq, cwsExpected_eq hSHA1 (by omega)]
  refine (hconf.accepts_iff (List.ne_nil_of_length_pos (by omega))
    (hown.trans (hlen digest hdigest).symm) hblank
    (forall_mem_base64 (by decide) (by decide) _)).trans ?_
  rw [show base64 (sha1 (base64 nonce ++ wsMagic)) = base64 digest ↔ _ from
    ⟨base64_inj, congrArg base64⟩]

end Client

/-- The two halves of the handshake against RFC 6455.  Whenever the server completes a handshake,
the request has a key header with a value of at most 92 bytes, and the accept value sent is the one
of RFC 6455 if and only if the digests of the key with the two texts are the same.  For every
nonce, the client accepts a conforming 101 response with the value of RFC 6455 for its key if and
only if the response is one of version 1.1 that it can read and the same holds for that key, or if
the text `Sec-WebSocket-Accept:` stands somewhere before the header, or instead of it, and is
followed by the value of the source.  SRC: bws.c:70-158, 255-298, cws.c:88-192, ws.h:13 -/
theorem handshake_rfc_iff {SHA1 : List UInt8 → List UInt8} (hSHA1 : OpensslSha1 SHA1)
    (rs crs : List HttpRead) (answer : Option (ℕ → UInt8)) (ws cws : List (Answer Unit))
    (sent nonce host : List UInt8) (port : ℕ) (r : Response) :
    (bwsDoHandshake rs answer ws = some (true, sent) →
      ∃ req key accept, wsReadHttp rs = some req ∧ KeyLine req key ∧ key.length ≤ 92 ∧
        sent = bwsResponse accept ∧
        (accept = rfcAccept key ↔ sha1 (key ++ wsAcceptKey) = sha1 (key ++ rfcGuid))) ∧
    (nonce.length = 16 → (writeHttp cws (cwsRequest host port (base64 nonce))).2 = true →
      HttpRead.stop ∉ crs → r.bytes (rfcAccept (base64 nonce)) <+: bytesOf crs →
      r.Conforms (rfcAccept (base64 nonce)) →
      ((cwsDoHandshake SHA1 nonce host port cws crs).1 = true ↔ r.minor = 49 ∧
        (r.Legible (rfcAccept (base64 nonce)) ∧
            sha1 (base64 nonce ++ wsMagic) = sha1 (base64 nonce ++ rfcGuid) ∨
          ¬ r.InFront (rfcAccept (base64 nonce)) ∧
            Finds (base64 (sha1 (base64 nonce ++ wsMagic)))
              (r.seen (rfcAccept (base64 nonce)))))) := by
  constructor
  · intro h
    obtain ⟨req, key, hreq, hkey, hlen, rfl⟩ := bwsDoHandshake_ok h
    exact ⟨req, key, ownAccept key, hreq, hkey, hlen, rfl, accept_eq_rfc_iff key wsAcceptKey⟩
  · intro hnonce hws hstop hbytes hconf
    exact cwsDoHandshake_iff hSHA1 hnonce hws (length_sha1 _) hstop hbytes hconf

/-- The key of the example of RFC 6455, section 1.3. -/
def sampleKey : List UInt8 := ascii "dGhlIHNhbXBsZSBub25jZQ=="

/-- A request with that key. -/
def sampleRequest : List UInt8 :=
  ascii "GET /chat HTTP/1.1\r\n" ++ ascii "Sec-WebSocket-Key: " ++ sampleKey ++ crlf ++ crlf

/-- The nonce it encodes. -/
def sampleNonce : List UInt8 := ascii "the sample nonce"

/-- The accept value of RFC 6455 for it. -/
def sampleAccept : List UInt8 := ascii "s3pPLMBiTxaQ9kYGzzhZRbK+xOo="

/-- The accept value of the source for it. -/
def sampleSent : List UInt8 := ascii "wlkqGQOGXTLlw1qv6VLQLjzm+9k="

/-- INTERNAL: a digest is computed as `mb_sha1` does it. -/
theorem base64_sha1_of_run {data accept : List UInt8} (hlen : data.length < 2 ^ 61)
    (h : (mbSha1 data (some fun _ => 0)).map (·.map b64Encode) = some (some accept)) :
    base64 (sha1 data) = accept := by
  rw [mbSha1_answer hlen, Option.map_some, Option.map_some, Option.map_some, b64Encode_eq] at h
  exact Option.some.inj (Option.some.inj h)

theorem rfcAccept_sampleKey : rfcAccept sampleKey = sampleAccept :=
  base64_sha1_of_run (by decide) (by decide +kernel)

theorem ownAccept_sampleKey : ownAccept sampleKey = sampleSent :=
  base64_sha1_of_run (by decide) (by decide +kernel)

theorem base64_sampleNonce : base64 sampleNonce = sampleKey := by decide +kernel

theorem opensslSha1_sha1 : OpensslSha1 sha1 := fun _ _ => rfl

theorem bwsDoHandshake_sample :
    bwsDoHandshake (sampleRequest.map .byte) (some fun _ => 0) [.more 511] =
      some (true, bwsResponse sampleSent) := by
  have hkey : (wsReadHttp (sampleRequest.map .byte)).bind bwsKey = some sampleKey := by
    decide +kernel
  have hlen : (bwsResponse sampleSent).length ≤ 511 + 1 := by
    rw [length_bwsResponse]
    decide
  rw [bwsDoHandshake_key hkey (by decide), ownAccept_sampleKey, writeHttp_more hlen]
  rfl

theorem writeHttp_cwsRequest (host : List UInt8) (port : ℕ) (key : List UInt8) :
    (writeHttp [.more 511] (cwsRequest host port key)).2 = true := by
  have hlen : (cwsRequest host port key).length ≤ 511 := by
    rw [cwsRequest, List.length_take]
    exact Nat.min_le_left _ _
  rw [writeHttp_more (Nat.le_succ_of_le hlen)]

theorem sample_conforms : reply.Conforms sampleAccept ∧ reply.Legible sampleAccept :=
  reply_conforms (.of_all (by decide)) (by decide)

/-- The server answers the request of the example, and the client of the example gets the response
of RFC 6455. -/
theorem handshake_rfc_sample :
    (∃ sent, bwsDoHandshake (sampleRequest.map .byte) (some fun _ => 0) [.more 511] =
        some (true, sent) ∧
      ∃ req key accept, wsReadHttp (sampleRequest.map .byte) = some req ∧ KeyLine req key ∧
        key.length ≤ 92 ∧ sent = bwsResponse accept ∧
        (accept = rfcAccept key ↔ sha1 (key ++ wsAcceptKey) = sha1 (key ++ rfcGuid))) ∧
    ((cwsDoHandshake sha1 sampleNonce (ascii "localhost") 80 [.more 511]
        ((reply.bytes sampleAccept).map .byte)).1 = true ↔ reply.minor = 49 ∧
      (reply.Legible (rfcAccept (base64 sampleNonce)) ∧
          sha1 (base64 sampleNonce ++ wsMagic) = sha1 (base64 sampleNonce ++ rfcGuid) ∨
        ¬ reply.InFront (rfcAccept (base64 sampleNonce)) ∧
          Finds (base64 (sha1 (base64 sampleNonce ++ wsMagic)))
            (reply.seen (rfcAccept (base64 sampleNonce))))) := by
  have h := handshake_rfc_iff opensslSha1_sha1 (sampleRequest.map .byte)
    ((reply.bytes sampleAccept).map .byte) (some fun _ => 0) [.more 511] [.more 511]
    (bwsResponse sampleSent) sampleNonce (ascii "localhost") 80 reply
  constructor
  · exact ⟨_, bwsDoHandshake_sample, h.1 bwsDoHandshake_sample⟩
  · have haccept : rfcAccept (base64 sampleNonce) = sampleAccept := by
      rw [base64_sampleNonce, rfcAccept_sampleKey]
    refine h.2 (by decide) (writeHttp_cwsRequest _ _ _) (stop_notMem_map_byte _) ?_ ?_
    · rw [haccept]
      exact prefix_bytesOf_map_byte _
    · rw [haccept]
      exact sample_conforms.1

/-- For the key of the example, the server sends another value than RFC 6455 has, and the client
rejects the response with the value of RFC 6455. -/
theorem handshake_differs_from_rfc :
    bwsDoHandshake (sampleRequest.map .byte) (some fun _ => 0) [.more 511] =
        some (true, bwsResponse (ascii "wlkqGQOGXTLlw1qv6VLQLjzm+9k=")) ∧
      rfcAccept sampleKey = ascii "s3pPLMBiTxaQ9kYGzzhZRbK+xOo=" ∧
      (cwsDoHandshake sha1 sampleNonce (ascii "localhost") 80 [.more 511]
        ((bwsResponse (ascii "s3pPLMBiTxaQ9kYGzzhZRbK+xOo=")).map .byte)).1 = false := by
  refine ⟨bwsDoHandshake_sample, rfcAccept_sampleKey, ?_⟩
  have hrfc : base64 (sha1 (sampleKey ++ rfcGuid)) = sampleAccept := rfcAccept_sampleKey
  obtain ⟨hconf, hlegible⟩ := sample_conforms
  rw [← hrfc] at hconf hlegible
  have hiff := cwsDoHandshake_iff opensslSha1_sha1 (by decide : sampleNonce.length = 16)
    (writeHttp_cwsRequest (ascii "localhost") 80 _) (length_sha1 _) (stop_notMem_map_byte _)
    (prefix_bytesOf_map_byte _) hconf
  rw [hrfc, reply_bytes, base64_sampleNonce] at hiff
  refine Bool.eq_false_iff.mpr fun hcon => ?_
  rcases (hiff.mp hcon).2 with ⟨-, heq⟩ | ⟨hnot, -⟩
  · have hsame : sampleSent = sampleAccept := by
      rw [← ownAccept_sampleKey, ← hrfc, ← heq]
      rfl
    exact absurd hsame (by decide)
  · exact hnot (hrfc ▸ hlegible.found)

end MsgBroker.Analysis.WsHandshake
