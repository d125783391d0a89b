import HreqH1.Reading.HeadOut
import HreqH1.Reading.Terminators

/-!
# Reading — written heads

What `write_http1x_req` and `write_http1x_res` write is lines of text without line ends (`Plain`), each
with `\r\n` behind it, and an empty line.  The scan comes from one line to the next without having been
at its end (`Passes`): behind each of them it is in the middle of `\r\n\r\n`, where a text takes it
back to the start, and the empty line to the end.

`written_heads_delimited`: so what is found of a written head is all of it, and nothing behind it.
-/

namespace HreqH1
open PollM BufIo
variable {bs cs : Bytes} {i j k : Nat}

/-! ### Lines -/

/-- A text without line ends. -/
def Plain (bs : Bytes) : Prop := ∀ b ∈ bs, b ≠ 13 ∧ b ≠ 10

instance : DecidablePred Plain := fun bs => inferInstanceAs (Decidable (∀ b ∈ bs, b ≠ 13 ∧ b ≠ 10))

theorem Plain.append (h : Plain bs) (h' : Plain cs) : Plain (bs ++ cs) := by
  intro b hb
  rcases List.mem_append.mp hb with hb | hb
  · exact h b hb
  · exact h' b hb

/-- The digits of a number are no line ends. -/
theorem plain_decimal (n : Nat) : Plain (decimal n) := by
  intro b hb
  obtain ⟨c, hc, rfl⟩ := List.mem_map.mp hb
  have hd := Nat.isDigit_of_mem_toDigits (by decide) (by decide) hc
  have hrange : 48 ≤ c.toNat ∧ c.toNat ≤ 57 := by
    simpa [Char.isDigit, UInt32.le_iff_toNat_le] using hd
  have hnat : c.toNat.toUInt8.toNat = c.toNat := by
    simp only [Nat.toUInt8_eq, UInt8.toNat_ofNat']
    omega
  constructor
  · intro h
    rw [h] at hnat
    have : (13 : Byte).toNat = 13 := rfl
    omega
  · intro h
    rw [h] at hnat
    have : (10 : Byte).toNat = 10 := rfl
    omega

/-- The scan comes from position `i` to `j` over `bs`, and is not at the end on the way. -/
structure Passes (i : Nat) (bs : Bytes) (j : Nat) : Prop where
  position : bs.foldl endIndexStep i = j
  before : ∀ n ≤ bs.length, (bs.take n).foldl endIndexStep i ≠ 4

theorem Passes.append (h : Passes i bs j) (h' : Passes j cs k) : Passes i (bs ++ cs) k where
  position := by rw [List.foldl_append, h.position, h'.position]
  before := by
    intro n hn
    rw [List.length_append] at hn
    rw [List.take_append, List.foldl_append]
    rcases Nat.le_total n bs.length with hle | hle
    · rw [Nat.sub_eq_zero_of_le hle]
      exact h.before n hle
    · rw [List.take_of_length_le hle, h.position]
      exact h'.before _ (by omega)

theorem Passes.nil (hi : i ≠ 4) : Passes i [] i := ⟨rfl, fun n _ => by rw [List.take_nil]; exact hi⟩

/-- A text takes the scan back to the start. -/
theorem Plain.passes (h : Plain bs) (hne : bs ≠ []) (hi : i ≠ 4) : Passes i bs 0 := by
  induction bs generalizing i with
  | nil => exact absurd rfl hne
  | cons b bs ih =>
      obtain ⟨h13, h10⟩ := h b List.mem_cons_self
      have hb : Passes i [b] 0 := by
        refine ⟨endIndexStep_other h13 h10 i, fun n hn => ?_⟩
        rcases Nat.le_one_iff_eq_zero_or_eq_one.mp hn with rfl | rfl
        · exact hi
        · exact (endIndexStep_other h13 h10 i).trans_ne (by decide)
      rcases eq_or_ne bs [] with rfl | hbs
      · exact hb
      · exact hb.append (ih (fun c hc => h c (List.mem_cons_of_mem b hc)) hbs (by decide))

/-- A line takes it into the middle. -/
theorem Plain.line (h : Plain bs) (hne : bs ≠ []) (hi : i ≠ 4) : Passes i (bs ++ ascii "\r\n") 2 :=
  (h.passes hne hi).append ⟨rfl, by decide⟩

/-- The empty line takes it to the end. -/
theorem Passes.headEnd (h : Passes 0 bs 2) : HeadEnd (bs ++ ascii "\r\n") := by
  have hcr : Passes 0 (bs ++ [13]) 3 := h.append ⟨rfl, by decide⟩
  have hsplit : bs ++ ascii "\r\n" = (bs ++ [13]) ++ [10] := (List.append_assoc bs [13] [10]).symm
  rw [hsplit]
  refine ⟨?_, fun n hn => ?_⟩
  · rw [endIndexAfter_append]
    exact congrArg (List.foldl endIndexStep · [10]) hcr.position
  · have hle : n ≤ (bs ++ [13]).length := by
      rw [List.length_append, List.length_singleton] at hn
      omega
    rw [List.take_append_of_le_length hle]
    exact hcr.before n hle

/-! ### Heads -/

/-- Names and values without line ends. -/
def PlainHeaders (headers : HeaderMap) : Prop := ∀ h ∈ headers, Plain h.1 ∧ Plain h.2

/-- What the `http` crate makes sure of for a request. -/
structure PlainReq (req : Request) : Prop where
  method : Plain req.method.bytes
  host : ∀ h, req.uri.host = some h → Plain h
  path : ∀ pq, req.uri.pathAndQuery = some pq → Plain pq
  headers : PlainHeaders req.headers

/-- What it makes sure of for a response. -/
structure PlainRes [Crates] (res : Response) : Prop where
  reason : ∀ r, Crates.canonicalReason res.status = some r → Plain r
  headers : PlainHeaders res.headers

/-- `head` is written into a buffer of `room` bytes, by one of the two writers. -/
inductive Written [Crates] (room : Nat) (head : Bytes) : Prop where
  | req {σ : Type} {s s' : σ} (req : Request) (hp : PlainReq req)
      (h : writeHttp1xReq req room s = (.ready head, s'))
  | res {σ : Type} {s s' : σ} (res : Response) (hp : PlainRes res)
      (h : writeHttp1xRes res room s = (.ready head, s'))

theorem plain_getD {o : Option Bytes} (ho : ∀ bs, o = some bs → Plain bs) {d : Bytes} (hd : Plain d) :
    Plain (o.getD d) := by
  cases o with
  | none => exact hd
  | some bs => exact ho bs rfl

theorem plain_versionBytes {v : Version} {ver : Bytes} (h : versionBytes v = .ok ver) : Plain ver := by
  cases v <;> cases h <;> decide +kernel

/-- The header lines, behind another line. -/
theorem PlainHeaders.headEnd {headers : HeaderMap} (h : PlainHeaders headers) (hbs : Passes 0 bs 2) :
    HeadEnd (bs ++ headerLines headers) := by
  rw [headerLines, ← List.append_assoc]
  refine Passes.headEnd (hbs.append ?_)
  induction headers with
  | nil => exact .nil (by decide)
  | cons x headers ih =>
      obtain ⟨hname, hvalue⟩ := h x List.mem_cons_self
      have hx : Plain (x.1 ++ ascii ": " ++ x.2) :=
        (hname.append (by decide +kernel)).append hvalue
      have hne : x.1 ++ ascii ": " ++ x.2 ≠ [] := by simp [ascii]
      exact (hx.line hne (by decide)).append (ih fun y hy => h y (List.mem_cons_of_mem x hy))

/-- The `host` line, where there is one. -/
theorem hostLine_cases (req : Request) : hostLine req = [] ∨ ∃ host port, req.uri.host = some host ∧
    hostLine req = ascii "host: " ++ host ++
      (if port ≠ 0 then ascii ":" ++ decimal port else []) ++ ascii "\r\n" := by
  rw [hostLine]
  split
  · exact .inl rfl
  · dsimp only
    cases req.uri.host with
    | none => exact .inl rfl
    | some host => exact .inr ⟨host, _, rfl, rfl⟩

theorem PlainReq.passes_hostLine {req : Request} (h : PlainReq req) : Passes 2 (hostLine req) 2 := by
  obtain he | ⟨host, port, hhost, he⟩ := hostLine_cases req
  · rw [he]
    exact .nil (by decide)
  · rw [he]
    have hport : Plain (if port ≠ 0 then ascii ":" ++ decimal port else []) := by
      split
      · exact Plain.append (by decide +kernel) (plain_decimal port)
      · decide +kernel
    have hname : Plain (ascii "host: ") := by decide +kernel
    exact ((hname.append (h.host host hhost)).append hport).line (by simp [ascii]) (by decide)

/-- What is written fits. -/
theorem writeCursor_ready {σ : Type} {s s' : σ} {room : Nat} {head : Bytes}
    (h : writeCursor room bs s = (.ready head, s')) : head = bs ∧ bs.length ≤ room := by
  rw [writeCursor] at h
  split at h
  · next hle => cases h; exact ⟨rfl, hle⟩
  · cases h

variable [Crates]

/-- What is written is a head. -/
theorem Written.headEnd {room : Nat} {head : Bytes} (h : Written room head) :
    HeadEnd head ∧ head.length ≤ room := by
  cases h with
  | req req hp h =>
      rw [writeHttp1xReq] at h
      cases hv : versionBytes req.version with
      | error m => rw [hv] at h; cases h
      | ok ver =>
          rw [hv] at h
          obtain ⟨rfl, hle⟩ := writeCursor_ready h
          refine ⟨?_, hle⟩
          have hpq : Plain (req.uri.pathAndQuery.getD (ascii "/")) :=
            plain_getD hp.path (by decide +kernel)
          refine hp.headers.headEnd (Passes.append (Plain.line ?_ ?_ (by decide)) hp.passes_hostLine)
          · exact (((hp.method.append (by decide +kernel)).append hpq).append
              (by decide +kernel)).append (plain_versionBytes hv)
          · simp [ascii]
  | res res hp h =>
      rw [writeHttp1xRes] at h
      cases hv : versionBytes res.version with
      | error m => rw [hv] at h; cases h
      | ok ver =>
          rw [hv] at h
          obtain ⟨rfl, hle⟩ := writeCursor_ready h
          refine ⟨?_, hle⟩
          have hreason : Plain ((Crates.canonicalReason res.status).getD (ascii "Unknown")) :=
            plain_getD hp.reason (by decide +kernel)
          refine hp.headers.headEnd (Plain.line ?_ ?_ (by decide))
          · exact ((((Plain.append (by decide +kernel) (plain_versionBytes hv)).append
              (by decide +kernel)).append (plain_decimal res.status)).append
              (by decide +kernel)).append hreason
          · simp [ascii]

variable [VecAlloc] {T : Type} {io : BufIo} {head rest : Bytes} {room polls : Nat}

/-- **Written heads are delimited exactly.**  Whatever comes behind a head that is written into a
buffer of 16384 bytes at most, and in whatever pieces it all arrives: the parse function is given the
head, without the flag of the end, and what comes behind is left unread. -/
theorem written_heads_delimited (f : Bytes → Bool → T) (hwritten : Written room head)
    (hroom : room ≤ readBufInitSize) (hw : io.Wf) (hcl : Transport.Clean io.inner.rx)
    (hst : io.stream = head ++ rest) (hpolls : io.inner.rx.length < polls)
    (hg : (headOut f polls io).2.Grows) :
    (headOut f polls io).1 = .ready (f head false) ∧ (headOut f polls io).2.stream = rest := by
  obtain ⟨hh, hle⟩ := hwritten.headEnd
  exact headOut_of_headEnd hh (Nat.le_trans hle hroom) hw hcl hst hpolls hg

/-- A request with a port of its own and a field without a value. -/
def portReq : Request :=
  ⟨.get, ⟨some (ascii "http"), some (ascii "h"), some 8080, some (ascii "/a")⟩, .http11,
    [(ascii "x", [])]⟩

/-- Its head. -/
def portHead : Bytes := ascii "GET /a HTTP/1.1\r\nhost: h:8080\r\nx: \r\n\r\n"

/-- The head with `body` behind it: two bytes are buffered, and the others arrive with the empty line
in two pieces. -/
def portPieces : BufIo :=
  { BufIo.withCapacity 64
      ⟨[.data (portHead.drop 2).dropLast, .pending, .data (10 :: ascii "body")], false, [], [], 0⟩ with
    buf := ⟨[71, 69], 64, by decide⟩ }

omit [Crates] [VecAlloc] in
theorem portReq_plain : PlainReq portReq where
  method := by decide +kernel
  host := fun h hh => by
    obtain rfl : ascii "h" = h := Option.some.inj hh
    decide +kernel
  path := fun pq hpq => by
    obtain rfl : ascii "/a" = pq := Option.some.inj hpq
    decide +kernel
  headers := fun h hh => by
    rw [List.mem_singleton.mp hh]
    decide +kernel

omit [Crates] [VecAlloc] in
theorem portReq_written :
    (writeHttp1xReq portReq 8192 : PollM IoError Unit Bytes) () = (.ready portHead, ()) := by
  decide +kernel

omit [Crates] [VecAlloc] in
theorem portPieces_clean : Transport.Clean portPieces.inner.rx := by
  intro e he
  rcases List.mem_cons.mp he with rfl | he
  · exact .inr ⟨_, _, rfl⟩
  rcases List.mem_cons.mp he with rfl | he
  · exact .inl rfl
  · rw [List.mem_singleton.mp he]
    exact .inr ⟨_, _, rfl⟩

omit [Crates] [VecAlloc] in
theorem portPieces_grow :
    letI := VecAlloc.amortized
    ∀ f ∈ (headOut Prod.mk 4 portPieces).2.fills, f.ok = true := by
  decide +kernel

omit [Crates] [VecAlloc] in
/-- Of the pieces, the head is found. -/
theorem portReq_delimited :
    letI := VecAlloc.amortized
    (headOut Prod.mk 4 portPieces).1 = .ready (portHead, false) ∧
      (headOut Prod.mk 4 portPieces).2.stream = ascii "body" :=
  @written_heads_delimited (Crates.table [] []) VecAlloc.amortized _ _ _ _ 8192 4 Prod.mk
    (@Written.req (Crates.table [] []) 8192 portHead Unit () () portReq portReq_plain portReq_written)
    (by decide) ⟨by decide, .inl (by decide), by intros; contradiction⟩ portPieces_clean
    (by decide +kernel) (by decide) portPieces_grow

end HreqH1
