import HreqH1.Link.Given
import HreqH1.Link.Heads
import HreqH1.Server.Requests

/-!
# Link — requests

A client and a server at the two ends of a transport.  Once all that the client has been asked for has
gone out (`SentOut`), what is written is a call for each request, with the head of it and a payload in
whose coding the data is that has been given for the body (`run_calls`).  So that is what the server
receives (`requests_arrive`).
-/

namespace HreqH1.Link
open PollM Runs Client

/-! ### Lists -/

section Lists
variable {α β γ : Type} {R : Nat → α → β → Prop} {l : List α}

/-- What there is for each element of a list, there is a list of. -/
theorem exists_each (h : ∀ (k : Nat) (a : α), l[k]? = some a → ∃ b, R k a b) :
    ∃ m : List β, m.length = l.length ∧
      ∀ (k : Nat) (a : α), l[k]? = some a → ∃ b, m[k]? = some b ∧ R k a b := by
  induction l generalizing R with
  | nil => exact ⟨[], rfl, fun k a ha => (by cases ha)⟩
  | cons a l ih =>
      obtain ⟨b, hb⟩ := h 0 a rfl
      obtain ⟨m, hlen, hm⟩ := ih (R := fun k => R (k + 1)) fun k x hx => h (k + 1) x hx
      refine ⟨b :: m, congrArg (· + 1) hlen, fun k x hx => ?_⟩
      cases k with
      | zero =>
          obtain rfl := Option.some.inj hx
          exact ⟨b, rfl, hb⟩
      | succ k => exact hm k x hx

/-- Two lists that agree element by element, put together. -/
theorem flatten_eq_flatMap {l : List (List γ)} {m : List β} {f : β → List γ}
    (hlen : m.length = l.length) (h : ∀ (k : Nat) (b : β), m[k]? = some b → l[k]? = some (f b)) :
    l.flatten = m.flatMap f := by
  induction m generalizing l with
  | nil => rw [List.length_eq_zero_iff.mp hlen.symm, List.flatten_nil, List.flatMap_nil]
  | cons b m ih =>
      cases l with
      | nil => cases hlen
      | cons x l =>
          obtain rfl : x = f b := Option.some.inj (h 0 b rfl)
          rw [List.flatten_cons, List.flatMap_cons,
            ih (Nat.succ.inj hlen) fun k y hy => h (k + 1) y hy]

end Lists

/-! ### The client -/

/-- All that the client has been asked for has gone out: no request is queued, the body of the last one
has been taken, and nothing is pending. -/
structure SentOut (w : World) : Prop where
  running : w.phase = .running
  queue : w.conn.reqRx.queue = []
  body : ∀ h, w.conn.state = .recvRes h → h.handle.bodyRx = none
  backlog : w.conn.io.backlog = []

/-- The header fields of a request announce what is given for its body. -/
inductive Announces (h : Handle) (gave : List (Bytes × Bool)) : Prop where
  | none (ht : h.req.headers.get transferEncoding = none) (hc : h.req.headers.get contentLength = none)
  | sized (ht : h.req.headers.get transferEncoding = none) {v : Bytes}
      (hc : h.req.headers.get contentLength = some v) (hv : PlainDecimal v (givenData gave).length)
      (hlt : (givenData gave).length < 2 ^ 64)
  | chunked (hc : isChunked h.req.headers = true) (hb : h.bodyRx ≠ none)

section Books
variable {w : World} {done : List Sent} {k : Nat} {s : Sent}

/-- The requests that have gone out are all, each of them whole. -/
theorem SentOut.whole (h : SentOut w) (hb : Booked w done) :
    done.map Sent.handle = w.conn.reqRx.sent ∧
      ∀ (k : Nat) (s : Sent), done[k]? = some s → s.Closed := by
  have hlive := hb.live h.running
  have hle : w.conn.reqRx.sent.length ≤ done.length := by
    refine List.drop_eq_nil_iff.mp ?_
    rw [← hlive.queue]
    exact h.queue
  refine ⟨hb.ledger.handles.eq_of_length_le (by rw [List.length_map]; exact hle), ?_⟩
  -- All but the last are closed, and the last by the state of the codec.
  have hlast : ∀ {front : List Sent} {t : Sent}, done = front ++ [t] → t.Closed →
      ∀ (k : Nat) (s : Sent), done[k]? = some s → s.Closed := by
    rintro front t rfl ht k s hk
    rcases getElem?_concat_cases hk with hlt | ⟨-, rfl⟩
    · refine (hb.ledger.closed k s ?_ hk).2
      rw [List.length_append]
      exact Nat.succ_lt_succ (lt_of_getElem? hlt)
    · exact ht
  have hat := hlive.atHand
  rw [AtHand] at hat
  cases hs : w.conn.state with
  | sendReq =>
      rw [hs] at hat
      exact fun k s hk => (hat k s hk).2
  | recvRes b =>
      rw [hs] at hat
      obtain ⟨front, t, hdone, hsend⟩ := hat
      exact hlast hdone (hsend.closed (h.body b hs))
  | recvBody b =>
      rw [hs] at hat
      obtain ⟨front, t, hdone, -, ht⟩ := hat
      exact hlast hdone ht

theorem SentOut.written (h : SentOut w) (hb : Booked w done) :
    w.conn.io.inner.written = wire w.conn := by
  obtain ⟨hall, hclosed⟩ := h.whole hb
  have hgiven : w.conn.io.inner.written ++ w.conn.io.backlog = done.flatMap Sent.bytes :=
    hb.ledger.given
  rw [h.backlog, List.append_nil] at hgiven
  rw [hgiven, wire, ← hall]
  refine (flatten_eq_flatMap (by simp) fun k s hk => ?_).symm
  rw [List.getElem?_mapIdx, List.getElem?_map, hk]
  exact congrArg some (hb.ledger.bytes_eq hk (hclosed k s hk)).symm

/-- The items of each body have an end. -/
theorem SentOut.ended {h : Handle} (ho : SentOut w) (hb : Booked w done)
    (hk : w.conn.reqRx.sent[k]? = some h) (hbody : h.bodyRx ≠ none) :
    Ended (w.conn.reqBody k).sent := by
  obtain ⟨hall, hclosed⟩ := ho.whole hb
  rw [← hall, List.getElem?_map] at hk
  obtain ⟨s, hs, rfl⟩ := Option.map_eq_some_iff.mp hk
  obtain ⟨-, rest, hrest⟩ := hb.ledger.items k s hs
  have hend := (hclosed k s hs).resolve_left hbody
  rw [Ended, ← hrest, List.any_append, Bool.or_eq_true]
  cases hl : s.items.getLast? with
  | none =>
      rw [hl] at hend
      cases hend
  | some x =>
      rw [hl] at hend
      exact .inl (List.any_eq_true.mpr ⟨x, List.mem_of_getLast? hl, hend⟩)

end Books

/-! ### Calls -/

section Calls
variable {h : Handle} {gave : List (Bytes × Bool)} {b : Chan (Bytes × Bool)} {send : Option SendStream}

theorem givenData_nil (h : ∀ x ∈ gave, x.1 = []) : givenData gave = [] := by
  rw [givenData]
  induction gave with
  | nil => rfl
  | cons x gave ih =>
      have hx := h x List.mem_cons_self
      rw [upToEnd]
      split
      · rw [chunks, List.flatMap_singleton, hx]
      · rw [chunks, List.flatMap_cons, hx, ← chunks, ih fun y hy => h y (List.mem_cons_of_mem x hy)]
        rfl

/-- The payload of a request, as it goes out. -/
theorem Entrusted.payload (he : Entrusted h gave b send) (ha : Announces h gave)
    (hend : h.bodyRx ≠ none → Ended b.sent) : ∃ p : Payload, p.Announced h.req.headers ∧
      p.data = givenData gave ∧ p.left ∈ leads ∧
      p.bytes = if h.bodyRx = none then [] else chunks (upToEnd b.sent) := by
  have hbare : ∀ {p : Payload}, p.left = [] → p.left ∈ leads := fun hp => hp ▸ List.mem_cons_self
  cases ha with
  | none ht hc =>
      have hn : h.bodyRx = none := by
        by_contra hn
        have hlim := he.announced hn
        rw [LimitWrite.fromHeaders, isChunked_of_none ht, if_neg Bool.false_ne_true, getAs, getStr,
          ← contentLength, hc] at hlim
        cases hlim
      exact ⟨.none, ⟨ht, hc⟩, (givenData_nil (he.bodiless hn)).symm, hbare rfl, (if_pos hn).symm⟩
  | @sized ht v hc hv hlt =>
      refine ⟨.sized (givenData gave), ⟨ht, v, hc, hv, hlt⟩, rfl, hbare rfl, ?_⟩
      show givenData gave = _
      split
      · next hn => exact givenData_nil (he.bodiless hn)
      · next hn =>
        have hl := he.loaded hn
        rw [isChunked_of_none ht] at hl
        exact hl.carries.sized.symm
  | chunked hc hb =>
      have hl := he.loaded hb
      rw [hc] at hl
      obtain ⟨cs, hdata, hbytes⟩ :=
        hl.carries.coding he.short (hl.carries.ends.mp (hend hb))
      refine ⟨.chunked cs ChunkedDecoder.plainLast, coding_of_isChunked hc, hdata, ?_, ?_⟩
      · exact List.mem_cons_of_mem _ List.mem_cons_self
      · rw [if_neg hb]
        exact hbytes.symm

variable [Crates]

/-- The call that a request becomes. -/
structure IsCall (req : Request) (gave : List (Bytes × Bool)) (m : Server.Call) : Prop where
  legible : Legible req
  head : reqHead req = .ready m.head
  parsed : m.parsed = arrival req
  data : m.body.data = givenData gave
  announced : m.body.Announced req.headers
  left : m.body.left ∈ leads

/-- What a body leaves is taken for no request. -/
def SkipsRest : Prop := ∀ lead ∈ leads, ∃ parsed, Crates.parseReq lead = .ok (true, parsed)

variable {calls : List Server.Call}

omit [Crates] in
theorem leftBefore_leads {α : Type} {ms : List (Message α)} (h : ∀ m ∈ ms, m.body.left ∈ leads)
    (k : Nat) : leftBefore ms k ∈ leads := by
  cases k with
  | zero => exact List.mem_cons_self
  | succ k =>
      rw [leftBefore]
      cases hm : ms[k]? with
      | none => exact List.mem_cons_self
      | some m => exact h m (List.mem_of_getElem? hm)

/-- Such calls are well-formed. -/
theorem asks_of_calls (hskips : SkipsRest)
    (hcalls : ∀ m ∈ calls, ∃ req gave, IsCall req gave m) : Server.Asks calls := by
  have hlead := leftBefore_leads fun m hm => (hcalls m hm).elim fun _ h => h.elim fun _ h => h.left
  refine ⟨fun k m hm => ?_, fun k m hm => ?_, noEnd_lead (hlead _), fun x hx => ?_⟩
  · obtain ⟨req, gave, h⟩ := hcalls m (List.mem_of_getElem? hm)
    exact h.legible.heads (hlead k) h.head h.parsed
  · obtain ⟨req, gave, h⟩ := hcalls m (List.mem_of_getElem? hm)
    rw [h.parsed]
    exact announced_arrival h.announced
  · obtain ⟨parsed, hp⟩ := hskips _ (hlead calls.length)
    rw [tryParseReq, hp] at hx
    cases hx

end Calls

section Runs
variable [VecAlloc] [Crates] {inner : Transport} {as : List Client.Action}

/-- The calls of a run: one for each request, and their bytes are all that is written. -/
theorem run_calls (h0 : inner.written = []) (htx : TxClean inner.tx) (hshort : ∀ a ∈ as, ShortCall a)
    (hout : SentOut (Runs.after Client.step as (Client.handshake inner)))
    (hreqs : ∀ (k : Nat) (h : Handle),
      (Runs.after Client.step as (Client.handshake inner)).conn.reqRx.sent[k]? = some h →
        Legible h.req ∧ Announces h (gaveFor as (Client.handshake inner) k)) :
    ∃ calls : List Server.Call,
      (Runs.after Client.step as (Client.handshake inner)).conn.io.inner.written =
        calls.flatMap Message.bytes ∧
      ∀ (k : Nat) (m : Server.Call), calls[k]? = some m → ∃ h : Handle,
        (Runs.after Client.step as (Client.handshake inner)).conn.reqRx.sent[k]? = some h ∧
          IsCall h.req (gaveFor as (Client.handshake inner) k) m := by
  have hgiven := given_after inner hshort
  obtain ⟨done, hbooked⟩ := run_booked h0 htx as
  generalize gaveFor as (Client.handshake inner) = gave at hgiven hreqs ⊢
  generalize Runs.after Client.step as (Client.handshake inner) = w at *
  have heach : ∀ (k : Nat) (h : Handle), w.conn.reqRx.sent[k]? = some h →
      ∃ m : Server.Call, IsCall h.req (gave k) m ∧ m.bytes = requestBytes w.conn k h := by
    intro k h hk
    obtain ⟨hleg, ha⟩ := hreqs k h hk
    obtain ⟨head, hhead⟩ := hleg.head
    obtain ⟨p, hann, hdata, hleft, hbytes⟩ :=
      (hgiven.each k h hk).payload ha (hout.ended hbooked hk)
    refine ⟨⟨head, arrival h.req, p⟩, ⟨hleg, hhead, rfl, hdata, hann, hleft⟩, ?_⟩
    rw [Message.bytes, requestBytes, headBytes, hhead, hbytes]
  obtain ⟨calls, hlen, hcalls⟩ := exists_each heach
  have hget : ∀ (k : Nat) (m : Server.Call), calls[k]? = some m → ∃ h : Handle,
      w.conn.reqRx.sent[k]? = some h ∧ IsCall h.req (gave k) m ∧
        m.bytes = requestBytes w.conn k h := by
    intro k m hm
    have hlt : k < w.conn.reqRx.sent.length := hlen ▸ lt_of_getElem? hm
    obtain ⟨m', hm', h⟩ := hcalls k _ (List.getElem?_eq_getElem hlt)
    obtain rfl : m = m' := Option.some.inj (hm.symm.trans hm')
    exact ⟨_, List.getElem?_eq_getElem hlt, h⟩
  refine ⟨calls, ?_, fun k m hm => ?_⟩
  · rw [hout.written hbooked, wire]
    refine flatten_eq_flatMap (by simpa using hlen) fun k m hm => ?_
    obtain ⟨h, hk, -, hbytes⟩ := hget k m hm
    rw [List.getElem?_mapIdx, hk, hbytes]
    rfl
  · obtain ⟨h, hk, hcall, -⟩ := hget k m hm
    exact ⟨h, hk, hcall⟩

/-- **What is asked for arrives.**  A client has been asked for requests, with a body for each in calls
of whatever length, and all of it has gone out; and a server reads what is written, in whatever pieces,
and takes no buffer whole that holds more than is left of its body.  The requests that `accept` hands out
are those, in their order, what is read of a body is a front of what has been given for it, and where the
end is read of a body that is complete, all of it. -/
theorem requests_arrive (inner inner' : Transport) (as : List Client.Action)
    (as' : List Server.Action) (h0 : inner.written = []) (htx : TxClean inner.tx)
    (hshort : ∀ a ∈ as, ShortCall a)
    (hout : SentOut (Runs.after Client.step as (Client.handshake inner)))
    (hreqs : ∀ (k : Nat) (h : Handle),
      (Runs.after Client.step as (Client.handshake inner)).conn.reqRx.sent[k]? = some h →
        Legible h.req ∧ Announces h (gaveFor as (Client.handshake inner) k))
    (hskips : SkipsRest) (hclean : Transport.Clean inner'.rx)
    (hrx : inner'.coming = (Runs.after Client.step as (Client.handshake inner)).conn.io.inner.written)
    (hcont : ∀ p ∈ (Runs.after Server.step as' (Server.handshake inner')).conn.entire,
      Server.Contained p) :
    let w := Runs.after Client.step as (Client.handshake inner)
    let w' := Runs.after Server.step as' (Server.handshake inner')
    let os := (run Server.step as' (Server.handshake inner')).1
    let gave := gaveFor as (Client.handshake inner)
    (∀ (k : Nat) (x : Request × Bytes), (Server.handedOut os).reverse[k]? = some x →
        ∃ h : Handle, w.conn.reqRx.sent[k]? = some h ∧ x.1 = arrival h.req ∧
          x.2 <+: givenData (gave k)) ∧
      ∀ (x : Request × Bytes) (xs : List (Request × Bytes)), Server.handedOut os = x :: xs →
        os.getLast? = some (.read (.ready [])) → w'.conn.complete = true →
          x.2 = givenData (gave xs.length) := by
  intro w w' os gave
  obtain ⟨calls, hbytes, hcalls⟩ := run_calls h0 htx hshort hout hreqs
  have hasks : Server.Asks calls := asks_of_calls hskips fun m hm => by
    obtain ⟨k, hk⟩ := List.getElem?_of_mem hm
    obtain ⟨h, -, hcall⟩ := hcalls k m hk
    exact ⟨h.req, _, hcall⟩
  have hr : Server.Received calls os w' :=
    Server.received_after hclean (hrx.trans hbytes) hasks hcont
  refine ⟨fun k x hx => ?_, fun x xs hx hend hcomp => ?_⟩
  · obtain ⟨m, hm, hreq, hdata⟩ := hr.sent.get hx
    obtain ⟨h, hk, hcall⟩ := hcalls k m hm
    exact ⟨h, hk, hreq.symm.trans hcall.parsed, hcall.data ▸ hdata⟩
  · have hwhole := hr.whole hend hcomp
    have hsent := hr.sent
    rw [hx] at hwhole hsent
    obtain ⟨⟨m, hm, -⟩, -⟩ := hsent
    obtain ⟨h, -, hcall⟩ := hcalls xs.length m hm
    exact hwhole.trans ((messageData_of_some hm).trans hcall.data)

/-- A request with a chunked body. -/
def helloRequest : Request :=
  ⟨.post, ⟨none, some (ascii "h"), none, some (ascii "/")⟩, .http11,
    [(ascii "transfer-encoding", ascii "chunked")]⟩

/-- Its head. -/
def helloHead : Bytes := ascii "POST / HTTP/1.1\r\nhost: h\r\ntransfer-encoding: chunked\r\n\r\n"

/-- The crates, on that head. -/
@[reducible] def helloCrates : Crates :=
  .table (leads.map fun lead => (lead ++ helloHead,
    ⟨some (ascii "POST"), some (ascii "/"), some 1,
      [(ascii "host", ascii "h"), (ascii "transfer-encoding", ascii "chunked")]⟩)) []

/-- A transport that is slow to take the first bytes. -/
def slowWire : Transport := ⟨[], false, [.accept 3, .pending], [], 0⟩

/-- The body is given in two calls. -/
def giveHello : List Client.Action :=
  [.sendRequest helloRequest false, .sendData 0 false 0 (ascii "hel") false, .pollConn 0,
    .pollConn 0, .sendData 0 true 0 (ascii "lo") true, .pollConn 0]

/-- The other end, where it arrives in two pieces. -/
def helloPieces : Transport :=
  ⟨[.data (helloHead ++ ascii "3\r\nh"), .data (ascii "el\r\n2\r\nlo\r\n0\r\n\r\n")], false, [], [], 0⟩

/-- The body is read to its end. -/
def readHello : List Server.Action := [.accept 0, .read 0 9, .read 0 9, .read 0 9, .read 0 9]

omit [VecAlloc] [Crates] in
theorem giveHello_run :
    letI := VecAlloc.amortized
    letI := helloCrates
    let w := Runs.after Client.step giveHello (Client.handshake slowWire)
    w.phase = .running ∧ w.conn.reqRx.queue = [] ∧
      w.conn.state = .recvRes ⟨⟨helloRequest, none, some 0⟩, false, none⟩ ∧
      w.conn.io.backlog = [] ∧ helloPieces.coming = w.conn.io.inner.written ∧
      w.conn.reqRx.sent = [newHandle 0 helloRequest false] :=
  ⟨by decide +kernel, by decide +kernel, by decide +kernel, by decide +kernel, by decide +kernel,
    by decide +kernel⟩

omit [VecAlloc] [Crates] in
theorem readHello_run :
    letI := VecAlloc.amortized
    letI := helloCrates
    let w := Runs.after Server.step readHello (Server.handshake helloPieces)
    let os := (run Server.step readHello (Server.handshake helloPieces)).1
    w.conn.entire = [] ∧ w.conn.complete = true ∧ os.getLast? = some (.read (.ready [])) ∧
      Server.handedOut os = [(arrival helloRequest, ascii "hello")] :=
  ⟨by decide +kernel, by decide +kernel, by decide +kernel, by decide +kernel⟩

omit [VecAlloc] [Crates] in
theorem helloRequest_legible :
    letI := helloCrates
    Legible helloRequest := by
  have hhead : reqHead helloRequest = .ready helloHead := by decide +kernel
  refine @Legible.mk helloCrates _ ⟨_, hhead⟩ ⟨?_, fun h hh => ?_, fun pq hpq => ?_, fun x hx => ?_⟩
    fun lead hlead => @ReadBack.mk helloCrates _ _ (fun head hh => ?_) ?_ rfl (by decide +kernel)
  · decide +kernel
  · obtain rfl : ascii "h" = h := Option.some.inj hh
    decide +kernel
  · obtain rfl : ascii "/" = pq := Option.some.inj hpq
    decide +kernel
  · rw [List.mem_singleton.mp hx]
    decide +kernel
  · obtain rfl : helloHead = head := Outcome.ready.inj (hhead.symm.trans hh)
    rcases List.mem_cons.mp hlead with rfl | hlead
    · decide +kernel
    · rw [List.mem_singleton.mp hlead]
      decide +kernel
  · exact fun x hx => ⟨rfl, rfl⟩

omit [VecAlloc] [Crates] in
theorem readHello_arrives :
    letI := VecAlloc.amortized
    letI := helloCrates
    Server.lastRead (Server.handedOut (run Server.step readHello (Server.handshake helloPieces)).1) =
      givenData (gaveFor giveHello (Client.handshake slowWire) 0) := by
  obtain ⟨hrun, hq, hs, hb, hrx, hsent⟩ := giveHello_run
  obtain ⟨hentire, hcomp, hend, hout⟩ := readHello_run
  have h := @requests_arrive VecAlloc.amortized helloCrates slowWire helloPieces giveHello readHello rfl
    (by simp [slowWire, TxClean]) (by simp [giveHello, ShortCall, ascii])
    ⟨hrun, hq, fun b hb => by rw [State.recvRes.inj (hs.symm.trans hb).symm], hb⟩
    (fun k x hk => by
      rw [hsent] at hk
      obtain rfl := List.mem_singleton.mp (List.mem_of_getElem? hk)
      exact ⟨helloRequest_legible, .chunked (by decide +kernel) (by decide)⟩)
    (fun lead hlead => by
      rcases List.mem_cons.mp hlead with rfl | hlead
      · exact ⟨⟨none, none, none, []⟩, by decide +kernel⟩
      · rw [List.mem_singleton.mp hlead]
        exact ⟨⟨none, none, none, []⟩, by decide +kernel⟩)
    (by simp [helloPieces, Transport.Clean, helloHead, ascii]) hrx
    (fun p hp => by rw [hentire] at hp; cases hp)
  have hdata := h.2 _ _ hout hend hcomp
  rw [hout]
  exact hdata

end Runs

end HreqH1.Link
