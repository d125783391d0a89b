import HreqH1.Client.Steps
import HreqH1.Sending.SendData

/-!
# Client — the ledger of requests

What the codec has taken from the user, in order: the requests off the queue, each with the items of
its body.  `Ledger` says how it stands to the channels and to the bytes given to the writer, and holds
as long as the connection exists; `Live` says what the codec will take next, and holds until it stops.

`run_ledger` has both of every run in which the writer does not fail.
-/

namespace HreqH1.Client
open PollM Runs BufIo

/-- A request that has been taken, and the items of its body that have. -/
structure Sent where
  handle : Handle
  items : List (Bytes × Bool)

/-- The head `write_http1x_req` makes of a request. -/
def headBytes (req : Request) : Bytes :=
  match reqHead req with
  | .ready head => head
  | _ => []

/-- The chunks of a body. -/
def chunks (items : List (Bytes × Bool)) : Bytes := items.flatMap Prod.fst

namespace Sent

/-- The bytes the codec writes for it. -/
def bytes (s : Sent) : Bytes := headBytes s.handle.req ++ chunks s.items

/-- There is no more to come: no body, or the item that ends it has been taken. -/
def Closed (s : Sent) : Prop := s.handle.bodyRx = none ∨ s.items.getLast?.any Prod.snd = true

/-- One more item. -/
def add (s : Sent) (x : Bytes × Bool) : Sent := { s with items := s.items ++ [x] }

/-- Only the last item may end a body, and without a body there is none. -/
structure Wf (s : Sent) : Prop where
  ends : ∀ x ∈ s.items.dropLast, x.2 = false
  noBody : s.handle.bodyRx = none → s.items = []

end Sent

/-- The requests in `done` are all that has been taken. -/
structure Ledger (c : Conn) (done : List Sent) : Prop where
  handles : done.map Sent.handle <+: c.reqRx.sent
  items : ∀ k s, done[k]? = some s → s.Wf ∧ s.items <+: (c.reqBody k).sent
  closed : ∀ k s, k + 1 < done.length → done[k]? = some s → k ∈ c.complete ∧ s.Closed
  given : c.io.given = done.flatMap Sent.bytes

/-- `SendRes` at the `n`-th request. -/
structure Sending (c : Conn) (n : Nat) (s : Sent) (h : Bidirect) : Prop where
  req : h.handle.req = s.handle.req
  resTx : ∀ i, h.handle.resTx = some i → i = n
  bodyRx : ∀ i, h.handle.bodyRx = some i → i = n ∧ s.handle.bodyRx ≠ none ∧
    (c.reqBody n).sent = s.items ++ (c.reqBody n).queue ∧ ∀ x ∈ s.items, x.2 = false
  closed : h.handle.bodyRx = none → s.Closed
  holder : ∀ i limit, h.holder = some (i, limit) → i = n
  complete : h.handle.resTx = none → h.holder = none → n ∈ c.complete

/-- Where the codec is in the last of the requests taken. -/
def AtHand (c : Conn) (done : List Sent) : Prop :=
  match c.state with
  | .sendReq => ∀ k s, done[k]? = some s → k ∈ c.complete ∧ s.Closed
  | .recvRes h => ∃ front s, done = front ++ [s] ∧ Sending c front.length s h
  | .recvBody b => ∃ front s, done = front ++ [s] ∧ b.bodyTx = front.length ∧ s.Closed

/-- What the codec will take is what has been sent and not taken. -/
structure Live (c : Conn) (done : List Sent) : Prop where
  handles : ∀ k h, c.reqRx.sent[k]? = some h → ∃ req noSendBody, h = newHandle k req noSendBody
  queue : c.reqRx.queue = c.reqRx.sent.drop done.length
  fresh : ∀ k h, done.length ≤ k → c.reqRx.sent[k]? = some h → h.bodyRx ≠ none →
    (c.reqBody k).sent = (c.reqBody k).queue
  atHand : AtHand c done

/-! ### Lists -/

section Lists
variable {α : Type} {l : List α} {a : α}

theorem getElem?_concat_cases {k : Nat} {b : α} (h : (l ++ [a])[k]? = some b) :
    l[k]? = some b ∨ k = l.length ∧ b = a := by
  by_cases hk : k < l.length
  · rw [List.getElem?_append_left hk] at h
    exact .inl h
  · rw [List.getElem?_append_right (Nat.not_lt.mp hk)] at h
    obtain ⟨h0, hb⟩ := List.getElem?_eq_some_iff.mp h
    rw [List.length_singleton, Nat.lt_one_iff] at h0
    refine .inr ⟨by omega, ?_⟩
    rw [← hb]
    simp [h0]

theorem lt_of_getElem? {k : Nat} {b : α} (h : l[k]? = some b) : k < l.length :=
  (List.getElem?_eq_some_iff.mp h).1

theorem getElem?_nil_ne {k : Nat} {b : α} : ([] : List α)[k]? ≠ some b := by simp

end Lists

section Sent
variable {s : Sent} {x : Bytes × Bool}

theorem Sent.bytes_add : (s.add x).bytes = s.bytes ++ x.1 := by
  rw [Sent.bytes, Sent.bytes, Sent.add, chunks, chunks, List.flatMap_append, List.append_assoc]
  simp

theorem Sent.wf_add (h : ∀ x ∈ s.items, x.2 = false) (hb : s.handle.bodyRx ≠ none) :
    (s.add x).Wf where
  ends := fun y hy => h y (by rw [Sent.add, List.dropLast_concat] at hy; exact hy)
  noBody := fun hn => absurd hn hb

theorem Sent.closed_add (h : x.2 = true) : (s.add x).Closed :=
  .inr (by rw [Sent.add, List.getLast?_concat]; exact h)

end Sent

/-! ### Changes of the connection -/

section Ledger
variable {c c' : Conn} {done front : List Sent} {s s' : Sent}

theorem Ledger.of_eq (h : Ledger c done) (hg : c'.io.given = c.io.given)
    (hr : c.reqRx.sent <+: c'.reqRx.sent)
    (hb : ∀ k, k < done.length → (c.reqBody k).sent <+: (c'.reqBody k).sent)
    (hc : ∀ i ∈ c.complete, i ∈ c'.complete) : Ledger c' done where
  handles := h.handles.trans hr
  items := fun k s hk => ⟨(h.items k s hk).1, (h.items k s hk).2.trans (hb k (lt_of_getElem? hk))⟩
  closed := fun k s hlt hk => ⟨hc k (h.closed k s hlt hk).1, (h.closed k s hlt hk).2⟩
  given := hg.trans h.given

/-- The last of the requests taken has changed. -/
theorem Ledger.last (h : Ledger c (front ++ [s])) (hh : s'.handle = s.handle)
    (hs : s'.Wf ∧ s'.items <+: (c'.reqBody front.length).sent)
    (hg : c'.io.given = c.io.given ++ bs) (hbs : s'.bytes = s.bytes ++ bs)
    (hr : c.reqRx.sent <+: c'.reqRx.sent)
    (hb : ∀ k, k < front.length → (c.reqBody k).sent <+: (c'.reqBody k).sent)
    (hc : ∀ i ∈ c.complete, i ∈ c'.complete) : Ledger c' (front ++ [s']) where
  handles := by
    have h₀ := h.handles
    rw [List.map_append, List.map_singleton] at h₀ ⊢
    rw [hh]
    exact h₀.trans hr
  items := fun k t hk => by
    rcases getElem?_concat_cases hk with hk | ⟨rfl, rfl⟩
    · have hlt := lt_of_getElem? hk
      have ht := h.items k t (by rw [List.getElem?_append_left hlt]; exact hk)
      exact ⟨ht.1, ht.2.trans (hb k hlt)⟩
    · exact hs
  closed := fun k t hlt hk => by
    rw [List.length_append, List.length_singleton] at hlt
    have hk₀ : k < front.length := Nat.lt_of_succ_lt_succ hlt
    rw [List.getElem?_append_left hk₀] at hk
    have ht := h.closed k t (by rw [List.length_append]; exact hlt)
      (by rw [List.getElem?_append_left hk₀]; exact hk)
    exact ⟨hc k ht.1, ht.2⟩
  given := by
    rw [hg, h.given, List.flatMap_append, List.flatMap_append, List.flatMap_singleton,
      List.flatMap_singleton, hbs, List.append_assoc]

/-- A request is taken. -/
theorem Ledger.take {handle : Handle} {head : Bytes} (h : Ledger c done)
    (hq : c.reqRx.sent[done.length]? = some handle) (hh : reqHead handle.req = .ready head)
    (hall : ∀ k s, done[k]? = some s → k ∈ c.complete ∧ s.Closed)
    (hg : c'.io.given = c.io.given ++ head) (hr : c'.reqRx.sent = c.reqRx.sent)
    (hb : c'.reqBody = c.reqBody) (hc : c'.complete = c.complete) :
    Ledger c' (done ++ [⟨handle, []⟩]) where
  handles := by
    obtain ⟨rest, hrest⟩ := h.handles
    rw [hr, List.map_append, List.map_singleton]
    rw [← hrest] at hq ⊢
    rw [List.getElem?_append_right (Nat.le_of_eq (List.length_map _)), List.length_map, Nat.sub_self] at hq
    cases rest with
    | nil => cases hq
    | cons x rest =>
        obtain rfl : x = handle := Option.some.inj hq
        exact ⟨rest, by rw [List.append_assoc]; rfl⟩
  items := fun k t hk => by
    rcases getElem?_concat_cases hk with hk | ⟨rfl, rfl⟩
    · rw [hb]
      exact h.items k t hk
    · exact ⟨⟨by simp, fun _ => rfl⟩, List.nil_prefix⟩
  closed := fun k t hlt hk => by
    rw [List.length_append, List.length_singleton] at hlt
    rw [List.getElem?_append_left (Nat.lt_of_succ_lt_succ hlt)] at hk
    rw [hc]
    exact hall k t hk
  given := by
    rw [hg, h.given, List.flatMap_append, List.flatMap_singleton, Sent.bytes, headBytes, hh]
    exact congrArg _ (List.append_nil _).symm

theorem Ledger.length_le (h : Ledger c done) : done.length ≤ c.reqRx.sent.length := by
  have hl := h.handles.length_le
  rwa [List.length_map] at hl

end Ledger

/-- What has been put on a channel is still to be taken. -/
def Feeds {α : Type} (b b' : Chan α) : Prop :=
  ∃ xs, b'.sent = b.sent ++ xs ∧ b'.queue = b.queue ++ xs

section Feeds
variable {α : Type} {b b' : Chan α} {f : Nat → Chan α} {i : Nat}

theorem Feeds.refl (b : Chan α) : Feeds b b := ⟨[], (List.append_nil _).symm, (List.append_nil _).symm⟩

theorem Feeds.sent (h : Feeds b b') : b.sent <+: b'.sent := by
  obtain ⟨xs, hs, -⟩ := h
  exact ⟨xs, hs.symm⟩

theorem Feeds.trans {b'' : Chan α} (h : Feeds b b') (h' : Feeds b' b'') : Feeds b b'' := by
  obtain ⟨xs, hs, hq⟩ := h
  obtain ⟨ys, hs', hq'⟩ := h'
  exact ⟨xs ++ ys, by rw [hs', hs, List.append_assoc], by rw [hq', hq, List.append_assoc]⟩

theorem feeds_quiet (h : b.Quiet b') : Feeds b b' :=
  ⟨[], by rw [h.sent, List.append_nil], by rw [h.queue, List.append_nil]⟩

theorem feeds_enqueue (x : α) : Feeds b (b.enqueue x) := by
  cases he : b.ended with
  | true => exact ⟨[], by simp [Chan.enqueue, he], by simp [Chan.enqueue, he]⟩
  | false => exact ⟨[x], Chan.sent_enqueue x he, Chan.queue_enqueue x he⟩

theorem feeds_offer (x : α) : Feeds b (b.offer x) := by
  rw [Chan.offer]
  split
  · exact .refl _
  · exact feeds_enqueue x

theorem feeds_dropSender : Feeds b b.dropSender :=
  ⟨[], by rw [Chan.sent_dropSender, List.append_nil], by rw [Chan.queue_dropSender, List.append_nil]⟩

theorem feeds_atId {g : Chan α → Chan α} (h : Feeds (f i) (g (f i))) (k : Nat) :
    Feeds (f k) (atId f i g k) := by
  by_cases hk : k = i
  · subst hk
    rw [atId_self]
    exact h
  · rw [atId_of_ne hk]
    exact .refl _

end Feeds

section Live
variable {c c' : Conn} {done front : List Sent} {s s' : Sent} {h h' : Bidirect}

theorem Sending.of_feeds {n : Nat} (hs : Sending c n s h)
    (hb : Feeds (c.reqBody n) (c'.reqBody n)) (hc : ∀ i ∈ c.complete, i ∈ c'.complete) :
    Sending c' n s h where
  req := hs.req
  resTx := hs.resTx
  bodyRx := fun i hi => by
    obtain ⟨hn, hne, heq, hx⟩ := hs.bodyRx i hi
    obtain ⟨xs, hsent, hqueue⟩ := hb
    exact ⟨hn, hne, by rw [hsent, hqueue, heq, List.append_assoc], hx⟩
  closed := hs.closed
  holder := hs.holder
  complete := fun hr hh => hc _ (hs.complete hr hh)

theorem AtHand.of_feeds (ha : AtHand c done) (hs : c'.state = c.state)
    (hb : ∀ k, k < done.length → Feeds (c.reqBody k) (c'.reqBody k))
    (hc : ∀ i ∈ c.complete, i ∈ c'.complete) : AtHand c' done := by
  rw [AtHand] at ha ⊢
  rw [hs]
  cases hst : c.state with
  | sendReq =>
      rw [hst] at ha
      exact fun k s hk => ⟨hc k (ha k s hk).1, (ha k s hk).2⟩
  | recvRes h =>
      rw [hst] at ha
      obtain ⟨front, s, rfl, hsend⟩ := ha
      refine ⟨front, s, rfl, hsend.of_feeds (hb _ ?_) hc⟩
      rw [List.length_append]
      exact Nat.lt_succ_self _
  | recvBody b =>
      rw [hst] at ha
      exact ha

/-- The user has sent requests, and items of bodies. -/
theorem Live.of_feeds (hv : Live c done) (hle : done.length ≤ c.reqRx.sent.length)
    (hr : Feeds c.reqRx c'.reqRx)
    (hh : ∀ k h, c'.reqRx.sent[k]? = some h → ∃ req noSendBody, h = newHandle k req noSendBody)
    (hb : ∀ k, k < c.reqRx.sent.length → Feeds (c.reqBody k) (c'.reqBody k))
    (hnew : ∀ k h, c.reqRx.sent.length ≤ k → c'.reqRx.sent[k]? = some h →
      (c'.reqBody k).sent = (c'.reqBody k).queue)
    (hs : c'.state = c.state) (hc : ∀ i ∈ c.complete, i ∈ c'.complete) : Live c' done where
  handles := hh
  queue := by
    obtain ⟨xs, hsent, hqueue⟩ := hr
    rw [hqueue, hsent, hv.queue, List.drop_append_of_le_length hle]
  fresh := fun k h hk hs hne => by
    by_cases hlt : k < c.reqRx.sent.length
    · have hold : c.reqRx.sent[k]? = some h := by
        obtain ⟨xs, hsent, -⟩ := hr
        rw [hsent, List.getElem?_append_left hlt] at hs
        exact hs
      obtain ⟨xs, hsent, hqueue⟩ := hb k hlt
      rw [hsent, hqueue, hv.fresh k h hk hold hne]
    · exact hnew k h (Nat.not_lt.mp hlt) hs
  atHand := hv.atHand.of_feeds hs (fun k hk => hb k (Nat.lt_of_lt_of_le hk hle)) hc

/-- The codec goes on to another state, or in the one it is in. -/
theorem Live.step {done' : List Sent} (hv : Live c done) (hr : c'.reqRx = c.reqRx)
    (hb : ∀ k, done.length ≤ k → c'.reqBody k = c.reqBody k)
    (hd : done'.length = done.length) (ha : AtHand c' done') : Live c' done' where
  handles := hr ▸ hv.handles
  queue := by
    rw [hd, hr]
    exact hv.queue
  fresh := fun k h hk hs hne => by
    rw [hd] at hk
    rw [hb k hk]
    exact hv.fresh k h hk (hr ▸ hs) hne
  atHand := ha

/-- An item of the body at hand is taken. -/
theorem taken_item (hl : Ledger c done) (hv : Live c done) {i : Nat} {bs : Bytes} {fin : Bool}
    {rx : Chan (Bytes × Bool)} {io : BufIo} (hs : c.state = .recvRes h)
    (hi : h.handle.bodyRx = some i) (ht : (c.reqBody i).Takes (bs, fin) rx)
    (hg : io.given = c.io.given ++ bs)
    (hc' : c' = { c with
      io := io
      state := .recvRes (h.sent i fin)
      reqBody := atId c.reqBody i fun _ => afterItem fin rx }) :
    ∃ done', Ledger c' done' ∧ Live c' done' := by
  have ha := hv.atHand
  rw [AtHand, hs] at ha
  obtain ⟨front, s, rfl, hsend⟩ := ha
  obtain ⟨rfl, hne, hsent, hx⟩ := hsend.bodyRx i hi
  have hrx : (afterItem fin rx).sent = s.items ++ (bs, fin) :: rx.queue := by
    rw [← ht.queue, ← hsent, ← ht.sent, afterItem]
    split
    · exact Chan.dropReceiver_sent
    · rfl
  have hself : c'.reqBody front.length = afterItem fin rx := by
    rw [hc']
    show atId c.reqBody front.length (fun _ => afterItem fin rx) front.length = _
    exact atId_self
  have hother : ∀ k, k ≠ front.length → c'.reqBody k = c.reqBody k := by
    intro k hk
    rw [hc']
    show atId c.reqBody front.length (fun _ => afterItem fin rx) k = _
    exact atId_of_ne hk
  have hreq : c'.reqRx = c.reqRx := by rw [hc']
  refine ⟨front ++ [s.add (bs, fin)], ?_, ?_⟩
  · refine hl.last rfl ⟨Sent.wf_add hx hne, ?_⟩ (by rw [hc']; exact hg) Sent.bytes_add
      (hreq ▸ List.prefix_refl _) (fun k hk => ?_) (by rw [hc']; exact fun _ => id)
    · rw [hself, hrx, Sent.add]
      exact ⟨rx.queue, by rw [List.append_assoc]; rfl⟩
    · exact hother k (Nat.ne_of_lt hk) ▸ List.prefix_refl _
  · refine hv.step hreq (fun k hk => ?_) (by rw [List.length_append, List.length_append]; rfl) ?_
    · rw [List.length_append] at hk
      exact hother k (Nat.ne_of_gt hk)
    · rw [AtHand, hc']
      refine ⟨front, s.add (bs, fin), rfl, hsend.req, hsend.resTx, fun j hj => ?_, fun hn => ?_,
        hsend.holder, hsend.complete⟩
      · cases fin with
        | true => cases hj
        | false =>
            obtain rfl := Option.some.inj hj
            refine ⟨rfl, hne, ?_, fun x hmem => ?_⟩
            · rw [← hc', hself, hrx, Sent.add, List.append_assoc]
              rfl
            · rcases List.mem_append.mp hmem with hmem | hmem
              · exact hx x hmem
              · obtain rfl := List.mem_singleton.mp hmem
                rfl
      · cases fin with
        | true => exact Sent.closed_add rfl
        | false => cases hn

end Live

/-! ### The codec -/

section Codec
variable [Crates] {c c' : Conn} {done : List Sent}

omit [Crates] in
/-- The codec has only read, woken or been woken. -/
theorem Live.quiet (hv : Live c done) (hl : Ledger c done) (hr : c.reqRx.Quiet c'.reqRx)
    (hb : ∀ k, Feeds (c.reqBody k) (c'.reqBody k)) (hs : c'.state = c.state)
    (hc : ∀ i ∈ c.complete, i ∈ c'.complete) : Live c' done := by
  refine hv.of_feeds hl.length_le (feeds_quiet hr) (hr.sent ▸ hv.handles) (fun k _ => hb k)
    (fun k h hk hh => ?_) hs hc
  exact absurd (lt_of_getElem? (hr.sent ▸ hh)) (Nat.not_lt.mpr hk)

theorem Move.ledger (h : Move c c') (hl : Ledger c done) (hv : Live c done) :
    ∃ done', Ledger c' done' ∧ Live c' done' := by
  have hat : ∀ {h}, c.state = .recvRes h → ∃ front s, done = front ++ [s] ∧
      Sending c front.length s h := by
    intro h hs
    have ha := hv.atHand
    rw [AtHand, hs] at ha
    exact ha
  have hbody : ∀ {b : BodyReceiver}, c.state = .recvBody b → ∃ front s, done = front ++ [s] ∧
      b.bodyTx = front.length ∧ s.Closed := by
    intro b hs
    have ha := hv.atHand
    rw [AtHand, hs] at ha
    exact ha
  cases h with
  | @write io hw ht =>
      exact ⟨done, hl.of_eq (hw.given.trans (List.append_nil _)) (List.prefix_refl _)
        (fun _ _ => List.prefix_refl _) (fun _ => id),
        hv.quiet hl (.refl _) (fun _ => .refl _) rfl fun _ => id⟩
  | read hr =>
      exact ⟨done, hl.of_eq hr.given (List.prefix_refl _) (fun _ _ => List.prefix_refl _) (fun _ => id),
        hv.quiet hl (.refl _) (fun _ => .refl _) rfl fun _ => id⟩
  | wake hq =>
      exact ⟨done, hl.of_eq rfl (List.prefix_refl _) (fun k _ => (feeds_atId (feeds_quiet hq) k).sent)
        (fun _ => id), hv.quiet hl (.refl _) (feeds_atId (feeds_quiet hq)) rfl fun _ => id⟩
  | rest hs hq =>
      exact ⟨done, hl.of_eq rfl (feeds_quiet hq).sent (fun _ _ => List.prefix_refl _) (fun _ => id),
        hv.quiet hl hq (fun _ => .refl _) rfl fun _ => id⟩
  | @request handle rx io head hs ht hh hw hio =>
      have ha := hv.atHand
      rw [AtHand, hs] at ha
      have hq : c.reqRx.sent[done.length]? = some handle := by
        have h0 := congrArg (fun l => l[0]?) (hv.queue.symm.trans ht.queue)
        simpa [List.getElem?_drop] using h0
      obtain ⟨req, noSendBody, hnew⟩ := hv.handles _ _ hq
      refine ⟨done ++ [Sent.mk handle []], hl.take hq hh ha hw.given ht.sent rfl rfl, ?_, ?_, ?_, ?_⟩
      · exact ht.sent ▸ hv.handles
      · show rx.queue = rx.sent.drop _
        rw [ht.sent, List.length_append, ← List.drop_drop, ← hv.queue, ht.queue]
        rfl
      · intro k h hk hs' hne
        rw [List.length_append] at hk
        exact hv.fresh k h (Nat.le_of_succ_le hk) (ht.sent ▸ hs') hne
      · refine ⟨done, ⟨handle, []⟩, rfl, rfl, fun i hi => ?_, fun i hi => ?_, fun hn => .inl hn,
          by simp, fun hn => ?_⟩
        · rw [hnew] at hi
          exact (Option.some.inj hi).symm
        · have hne : handle.bodyRx ≠ none := by
            rw [show handle.bodyRx = some i from hi]
            exact Option.some_ne_none i
          refine ⟨?_, hne, hv.fresh _ _ (Nat.le_refl _) hq hne, by simp⟩
          rw [hnew] at hi
          cases noSendBody with
          | true => cases hi
          | false => exact (Option.some.inj hi).symm
        · rw [hnew] at hn
          cases hn
  | @response h i io head eos res hs hi hf hp =>
      obtain ⟨front, s, rfl, hsend⟩ := hat hs
      obtain rfl := hsend.resTx i hi
      have hmem : ∀ j ∈ c.complete, j ∈ (answered h front.length res { c with io := io }).complete := by
        intro j hj
        show j ∈ if _ then _ else _
        split
        · exact List.mem_cons_of_mem _ hj
        · exact hj
      refine ⟨_, hl.of_eq (hf.reads.given) (List.prefix_refl _) (fun _ _ => List.prefix_refl _) hmem,
        hv.step rfl (fun _ _ => rfl) rfl ?_⟩
      refine ⟨front, s, rfl, hsend.req, by intros; contradiction, hsend.bodyRx, hsend.closed,
        fun j limit hh => ?_,
        fun _ hh => ?_⟩
      · rw [Bidirect.answered] at hh
        dsimp only at hh
        split at hh
        · cases hh
        · cases hh
          rfl
      · show front.length ∈ if _ then _ else _
        rw [Bidirect.answered] at hh
        dsimp only at hh
        split at hh
        · next hb => rw [if_pos hb]; exact List.mem_cons_self
        · cases hh
  | item hs hi ht hw hio => exact taken_item hl hv hs hi ht hw.given rfl
  | @toBody h i limit hs hr hb hh =>
      obtain ⟨front, s, rfl, hsend⟩ := hat hs
      exact ⟨_, hl.of_eq rfl (List.prefix_refl _) (fun _ _ => List.prefix_refl _) (fun _ => id),
        hv.step rfl (fun _ _ => rfl) rfl ⟨front, s, rfl, hsend.holder i limit hh, hsend.closed hb⟩⟩
  | @toNext h hs hr hb hh hu =>
      obtain ⟨front, s, rfl, hsend⟩ := hat hs
      refine ⟨_, hl.of_eq rfl (List.prefix_refl _) (fun _ _ => List.prefix_refl _) (fun _ => id),
        hv.step rfl (fun _ _ => rfl) rfl fun k t hk => ?_⟩
      rcases getElem?_concat_cases hk with hk' | ⟨rfl, rfl⟩
      · have hlt := lt_of_getElem? hk'
        exact hl.closed k t (by rw [List.length_append]; exact Nat.succ_lt_succ hlt) hk
      · exact ⟨hsend.complete hr hh, hsend.closed hb⟩
  | @chunk b n bs limit io hs hc ho hn hlim hr hne =>
      obtain ⟨front, s, rfl, hb, hcl⟩ := hbody hs
      obtain ⟨fr, hr⟩ := hr
      exact ⟨_, hl.of_eq hr.given (List.prefix_refl _) (fun _ _ => List.prefix_refl _) (fun _ => id),
        hv.step rfl (fun _ _ => rfl) rfl ⟨front, s, rfl, hb, hcl⟩⟩
  | lastRead hs hc hn hlim hr he =>
      obtain ⟨front, s, rfl, hb, hcl⟩ := hbody hs
      obtain ⟨fr, hr⟩ := hr
      exact ⟨_, hl.of_eq hr.given (List.prefix_refl _) (fun _ _ => List.prefix_refl _) (fun _ => id),
        hv.step rfl (fun _ _ => rfl) rfl ⟨front, s, rfl, hb, hcl⟩⟩
  | bodyEnd hs hc =>
      exact ⟨_, hl.of_eq rfl (List.prefix_refl _) (fun _ _ => List.prefix_refl _)
        (fun _ => List.mem_cons_of_mem _),
        hv.quiet hl (.refl _) (fun _ => .refl _) rfl fun _ => List.mem_cons_of_mem _⟩
  | @bodyNext b hs hc hm hu =>
      obtain ⟨front, s, rfl, hb, hcl⟩ := hbody hs
      refine ⟨_, hl.of_eq rfl (List.prefix_refl _) (fun _ _ => List.prefix_refl _) (fun _ => id),
        hv.step rfl (fun _ _ => rfl) rfl fun k t hk => ?_⟩
      rcases getElem?_concat_cases hk with hk' | ⟨rfl, rfl⟩
      · have hlt := lt_of_getElem? hk'
        exact hl.closed k t (by rw [List.length_append]; exact Nat.succ_lt_succ hlt) hk
      · exact ⟨hb ▸ hm, hcl⟩

/-- The answers of the writer get fewer. -/
theorem Move.tx (h : Move c c') : c'.io.inner.tx <:+ c.io.inner.tx := by
  cases h with
  | write hw ht => exact hw.tx
  | read hr => exact hr.tx ▸ List.suffix_refl _
  | request hs ht hh hw hio => exact hw.tx
  | response hs hi hf hp => exact hf.reads.tx ▸ List.suffix_refl _
  | item hs hi ht hw hio => exact hw.tx
  | chunk hs hc ho hn hl hr hne => obtain ⟨front, hr⟩ := hr; exact hr.tx ▸ List.suffix_refl _
  | lastRead hs hc hn hl hr he => obtain ⟨front, hr⟩ := hr; exact hr.tx ▸ List.suffix_refl _
  | _ => exact List.suffix_refl _

theorem Stop.tx {k : Halt IoError} (h : Stop k c c') : c'.io.inner.tx <:+ c.io.inner.tx := by
  cases h with
  | writePending hw ht hlt => exact hw.tx
  | writeFailed hw ht why => exact hw.tx
  | grow hr hg => exact hr.tx ▸ List.suffix_refl _
  | requestFailed hs ht hw hio why => exact hw.tx
  | headPending hs hi hb hr hbl => exact hr.tx ▸ List.suffix_refl _
  | headMissing hs hi hr why => exact hr.tx ▸ List.suffix_refl _
  | headInvalid hs hi hf hp hk => exact hf.reads.tx ▸ List.suffix_refl _
  | headPendingSent hs hi ht hr hw hio => exact hr.tx ▸ hw.tx
  | itemFailed hs hi ht hw hio why => exact hw.tx
  | limitPending hs hc hn hl hr hw => obtain ⟨front, hr⟩ := hr; exact hr.tx ▸ List.suffix_refl _
  | limitFailed hs hc hl hn hr hk why => obtain ⟨front, hr⟩ := hr; exact hr.tx ▸ List.suffix_refl _
  | _ => exact List.suffix_refl _

omit [Crates] in
theorem sent_dropHandle (h : Handle) (c : Conn) (k : Nat) :
    (c.reqBody k).sent <+: ((c.dropHandle h).reqBody k).sent := by
  rw [Conn.dropHandle]
  dsimp only
  cases h.bodyRx with
  | none => exact List.prefix_refl _
  | some i =>
      dsimp only
      by_cases hk : k = i
      · subst hk
        have hs : (atId c.reqBody k Chan.dropReceiver k).sent = (c.reqBody k).sent := by
          rw [atId_self, Chan.dropReceiver_sent]
        exact hs ▸ List.prefix_refl _
      · have hs : atId c.reqBody i Chan.dropReceiver k = c.reqBody k := atId_of_ne hk
        exact hs ▸ List.prefix_refl _

/-- A poll that is `Pending` has left the ledger in order. -/
theorem Stop.live (h : Stop .pending c c') (hl : Ledger c done) (hv : Live c done) :
    ∃ done', Ledger c' done' ∧ Live c' done' := by
  have hquiet : ∀ {c' : Conn}, c'.io.given = c.io.given → c'.state = c.state →
      c.reqRx.Quiet c'.reqRx → c'.reqBody = c.reqBody → c'.complete = c.complete →
      ∃ done', Ledger c' done' ∧ Live c' done' := fun hg hs hr hb hc =>
    ⟨done, hl.of_eq hg (feeds_quiet hr).sent (fun k _ => hb ▸ List.prefix_refl _) (fun i hi => hc ▸ hi),
      hv.quiet hl hr (fun k => hb ▸ .refl _) hs fun i hi => hc ▸ hi⟩
  cases h with
  | writePending hw ht hlt => exact hquiet (hw.given.trans (List.append_nil _)) rfl (.refl _) rfl rfl
  | awaitRequest hs hr hq hn => exact hquiet rfl rfl hr rfl rfl
  | headPending hs hi hb hr hbl => exact hquiet hr.given rfl (.refl _) rfl rfl
  | headInvalid hs hi hf hp hk => exact absurd rfl hk
  | headPendingSent hs hi ht hr hw hio =>
      exact taken_item hl hv hs hi ht (by rw [hw.given, hr.given]) rfl
  | bidirectPending hs hb => exact ⟨done, hl, hv⟩
  | bodyFull hs hc hq hr ho => exact hquiet rfl rfl (.refl _) rfl rfl
  | @limitPending _ b n limit io hs hc hn hlim hr hw =>
      have ha := hv.atHand
      rw [AtHand, hs] at ha
      obtain ⟨front, s, rfl, hb, hcl⟩ := ha
      obtain ⟨fr, hr⟩ := hr
      exact ⟨_, hl.of_eq hr.given (List.prefix_refl _) (fun _ _ => List.prefix_refl _) (fun _ => id),
        hv.step rfl (fun _ _ => rfl) rfl ⟨front, s, rfl, hb, hcl⟩⟩
  | limitFailed hs hc hlim hn hr hk why => exact absurd rfl hk

/-- Where the writer does not fail, nothing is given to it that is not in the ledger. -/
theorem Stop.ledger {k : Halt IoError} (h : Stop k c c') (hl : Ledger c done) (hv : Live c done)
    (htx : TxClean c.io.inner.tx) : ∃ done', Ledger c' done' := by
  have hsame : ∀ {c' : Conn}, c'.io.given = c.io.given → c'.reqRx.sent = c.reqRx.sent →
      (∀ k, (c.reqBody k).sent <+: (c'.reqBody k).sent) → c'.complete = c.complete →
      ∃ done', Ledger c' done' := fun hg hr hb hc =>
    ⟨done, hl.of_eq hg (hr ▸ List.prefix_refl _) (fun k _ => hb k) fun i hi => hc ▸ hi⟩
  by_cases hk : k = .pending
  · subst hk
    obtain ⟨done', hl', -⟩ := h.live hl hv
    exact ⟨done', hl'⟩
  · cases h with
    | writeFailed hw ht why => exact absurd htx why
    | grow hr hg => exact hsame hr.given rfl (fun _ => List.prefix_refl _) rfl
    | @requestFailed _ handle rx io front e hs ht hw hio why =>
        obtain rfl : front = [] := (why.resolve_right (not_not_intro htx)).1
        exact hsame (hw.given.trans (List.append_nil _)) ht.sent (fun k => sent_dropHandle handle _ k) rfl
    | @requestPanic _ handle rx hs ht why =>
        exact hsame rfl ht.sent (fun k => sent_dropHandle handle _ k) rfl
    | headMissing hs hi hr why => exact hsame hr.given rfl (fun _ => List.prefix_refl _) rfl
    | headInvalid hs hi hf hp hkp => exact hsame hf.reads.given rfl (fun _ => List.prefix_refl _) rfl
    | noItem hs hi hr hq hn =>
        exact hsame rfl rfl (fun k => (feeds_atId (feeds_quiet hr) k).sent) rfl
    | itemFailed hs hi ht hw hio why => exact absurd htx why
    | limitFailed hs hc hlim hn hr hkp why =>
        obtain ⟨fr, hr⟩ := hr
        exact hsame hr.given rfl (fun _ => List.prefix_refl _) rfl
    | noSize hs h0 => exact ⟨done, hl⟩
    | _ => exact absurd rfl hk

end Codec

/-! ### Runs -/

/-- The queue of requests, but for what the codec has taken off it. -/
structure SameRequests (b b' : Chan Handle) : Prop where
  sent : b'.sent = b.sent
  ended : b'.ended = b.ended
  receivers : b'.receivers = b.receivers

section SameRequests
variable [Crates] {c c' : Conn}

omit [Crates] in
theorem SameRequests.refl (b : Chan Handle) : SameRequests b b := ⟨rfl, rfl, rfl⟩

omit [Crates] in
theorem SameRequests.trans {b b' b'' : Chan Handle} (h : SameRequests b b')
    (h' : SameRequests b' b'') : SameRequests b b'' :=
  ⟨h'.sent.trans h.sent, h'.ended.trans h.ended, h'.receivers.trans h.receivers⟩

theorem Move.requests (h : Move c c') : SameRequests c.reqRx c'.reqRx := by
  cases h with
  | rest hs hq => exact ⟨hq.sent, hq.ended, hq.receivers⟩
  | request hs ht hh hw hio => exact ⟨ht.sent, ht.ended, ht.receivers⟩
  | _ => exact .refl _

theorem Stop.requests {k : Halt IoError} (h : Stop k c c') : SameRequests c.reqRx c'.reqRx := by
  cases h with
  | awaitRequest hs hr hq hn => exact ⟨hr.sent, hr.ended, hr.receivers⟩
  | requestFailed hs ht hw hio why => exact ⟨ht.sent, ht.ended, ht.receivers⟩
  | requestPanic hs ht why => exact ⟨ht.sent, ht.ended, ht.receivers⟩
  | _ => exact .refl _

omit [Crates] in
/-- A forwarded error goes to a response or to its body. -/
theorem tryForwardError_keeps (e : IoError) (c : Conn) : ∃ res resBody,
    tryForwardError e c = { c with res := res, resBody := resBody } := by
  rw [tryForwardError]
  split
  · exact ⟨c.res, c.resBody, rfl⟩
  · split
    · exact ⟨_, c.resBody, rfl⟩
    · exact ⟨c.res, c.resBody, rfl⟩
  · exact ⟨c.res, _, rfl⟩

theorem ClientPost.requests {r : Outcome IoError Unit} (h : ClientPost c r c') :
    SameRequests c.reqRx c'.reqRx := by
  refine h.keeps (I := fun c' => SameRequests c.reqRx c'.reqRx)
    (fun _ _ hm hc => hc.trans hm.requests) (fun _ _ _ hs hc => hc.trans hs.requests)
    (fun e c₁ hc => ?_) (.refl _)
  obtain ⟨res, resBody, heq⟩ := tryForwardError_keeps e c₁
  rw [heq]
  exact hc

end SameRequests

section DropConn

theorem sent_dropHandles (q : List Handle) (c : Conn) (k : Nat) :
    (c.reqBody k).sent <+: ((q.foldl (fun w h => w.dropHandle h) c).reqBody k).sent := by
  induction q generalizing c with
  | nil => exact List.prefix_refl _
  | cons h q ih => exact (sent_dropHandle h c k).trans (ih _)

theorem reqRx_dropHandles (q : List Handle) (c : Conn) :
    (q.foldl (fun w h => w.dropHandle h) c).reqRx = c.reqRx := by
  induction q generalizing c with
  | nil => rfl
  | cons h q ih => exact ih (c.dropHandle h)

/-- A connection that is dropped: what has been sent is still known. -/
theorem sent_dropConn (c : Conn) : (dropConn c).reqRx = c.reqRx.dropReceiver ∧
    ∀ k, (c.reqBody k).sent <+: ((dropConn c).reqBody k).sent := by
  have hq : ∀ {c₁ : Conn}, c₁.reqRx = c.reqRx → (∀ k, (c.reqBody k).sent <+: (c₁.reqBody k).sent) →
      (c₁.reqRx.queue.foldl (fun w h => w.dropHandle h) c₁).reqRx.dropReceiver =
          c.reqRx.dropReceiver ∧
        ∀ k, (c.reqBody k).sent <+:
          ((c₁.reqRx.queue.foldl (fun w h => w.dropHandle h) c₁).reqBody k).sent := by
    intro c₁ hr hb
    rw [reqRx_dropHandles, hr]
    exact ⟨rfl, fun k => (hb k).trans (sent_dropHandles _ _ k)⟩
  rw [dropConn]
  refine hq ?_ fun k => ?_
  · cases c.state with
    | sendReq => rfl
    | recvBody h => rfl
    | recvRes h => dsimp only; cases h.holder <;> rfl
  · cases c.state with
    | sendReq => exact List.prefix_refl _
    | recvBody h => exact List.prefix_refl _
    | recvRes h =>
        dsimp only
        cases h.holder with
        | none => exact sent_dropHandle h.handle c k
        | some p => exact sent_dropHandle h.handle c k

end DropConn

/-- The ledger of a connection with its user. -/
structure Booked (w : World) (done : List Sent) : Prop where
  ledger : Ledger w.conn done
  tx : TxClean w.conn.io.inner.tx
  issued : w.conn.reqRx.sent.length = w.issued
  ended : w.conn.reqRx.ended = true → w.conn.reqRx.receivers = 0
  live : w.phase = .running → Live w.conn done

section Booked
variable {w w' : World} {done : List Sent}

/-- A step of the user that sends no request. -/
theorem Booked.beside (h : Booked w done) (hio : w'.conn.io = w.conn.io)
    (hs : w'.conn.state = w.conn.state) (hc : w'.conn.complete = w.conn.complete)
    (hr : SameRequests w.conn.reqRx w'.conn.reqRx) (hq : w'.conn.reqRx.queue = w.conn.reqRx.queue)
    (hb : ∀ k, Feeds (w.conn.reqBody k) (w'.conn.reqBody k)) (hn : w'.issued = w.issued)
    (hp : w'.phase = w.phase) : Booked w' done where
  ledger := h.ledger.of_eq (by rw [hio]) (hr.sent ▸ List.prefix_refl _) (fun k _ => (hb k).sent)
    fun i hi => hc ▸ hi
  tx := hio ▸ h.tx
  issued := by rw [hr.sent, hn, h.issued]
  ended := by
    rw [hr.ended, hr.receivers]
    exact h.ended
  live := fun hrun => by
    have hv := h.live (hp ▸ hrun)
    refine hv.of_feeds h.ledger.length_le ⟨[], ?_, ?_⟩ (hr.sent ▸ hv.handles) (fun k _ => hb k)
      (fun k x hk hx => ?_) hs fun i hi => hc ▸ hi
    · rw [hr.sent, List.append_nil]
    · rw [hq, List.append_nil]
    · exact absurd (lt_of_getElem? (hr.sent ▸ hx)) (Nat.not_lt.mpr hk)

/-- A `ResponseFuture` is dropped after a step that keeps its books. -/
theorem Booked.dropFuture (i : Nat) (h : Booked w done) : Booked (Client.dropFuture i w) done := by
  obtain ⟨rb, heq⟩ := dropFuture_conn i w
  refine h.beside ?_ ?_ ?_ ?_ ?_ ?_ rfl rfl
  · rw [heq]
  · rw [heq]
  · rw [heq]
  · rw [heq]
    exact .refl _
  · rw [heq]
  · intro k
    rw [heq]
    exact .refl _

/-- A request is sent. -/
theorem Booked.request {req : Request} {noSendBody : Bool} (h : Booked w done)
    (hr : w.conn.reqRx.receivers ≠ 0) (hc : w'.conn = enqueued w.issued req noSendBody w.conn)
    (hn : w'.issued = w.issued + 1) (hp : w'.phase = w.phase) : Booked w' done := by
  have he : w.conn.reqRx.ended = false :=
    Bool.eq_false_iff.mpr fun he => hr (h.ended he)
  have hsent : w'.conn.reqRx.sent = w.conn.reqRx.sent ++ [newHandle w.issued req noSendBody] := by
    rw [hc]
    exact Chan.sent_enqueue _ he
  have hbody : w'.conn.reqBody = atId w.conn.reqBody w.issued fun _ =>
      if noSendBody then (Chan.new 1).dropReceiver else .new 1 := by
    rw [hc]
    rfl
  have hold : ∀ k, k < w.conn.reqRx.sent.length → w'.conn.reqBody k = w.conn.reqBody k := by
    intro k hk
    rw [hbody]
    exact atId_of_ne (Nat.ne_of_lt (h.issued ▸ hk))
  have hnew : ∀ k, k = w.issued → (w'.conn.reqBody k).sent = [] ∧ (w'.conn.reqBody k).queue = [] := by
    rintro k rfl
    rw [hbody, atId_self]
    cases noSendBody with
    | true => exact ⟨rfl, rfl⟩
    | false => exact ⟨rfl, rfl⟩
  have hcase : ∀ k x, w'.conn.reqRx.sent[k]? = some x → w.conn.reqRx.sent[k]? = some x ∨
      k = w.issued ∧ x = newHandle w.issued req noSendBody := by
    intro k x hx
    rw [hsent] at hx
    rcases getElem?_concat_cases hx with hx | ⟨hk, rfl⟩
    · exact .inl hx
    · exact .inr ⟨hk.trans h.issued, rfl⟩
  refine ⟨?_, ?_, ?_, ?_, fun hrun => ?_⟩
  · refine h.ledger.of_eq ?_ (hsent ▸ List.prefix_append _ _) (fun k hk => ?_) ?_
    · rw [hc]
      rfl
    · exact hold k (Nat.lt_of_lt_of_le hk h.ledger.length_le) ▸ List.prefix_refl _
    · rw [hc]
      exact fun _ => id
  · rw [hc]
    exact h.tx
  · rw [hsent, List.length_append, h.issued, hn]
    rfl
  · rw [hc]
    intro hend
    exact absurd (he.symm.trans ((Chan.ended_enqueue _).symm.trans hend)) Bool.noConfusion
  · have hv := h.live (hp ▸ hrun)
    refine hv.of_feeds h.ledger.length_le ?_ (fun k x hx => ?_) (fun k hk => ?_)
      (fun k x hk hx => ?_) ?_ ?_
    · rw [hc]
      exact feeds_enqueue _
    · rcases hcase k x hx with hx | ⟨rfl, rfl⟩
      · exact hv.handles k x hx
      · exact ⟨req, noSendBody, rfl⟩
    · rw [hold k hk]
      exact .refl _
    · rcases hcase k x hx with hx | ⟨hk', -⟩
      · exact absurd (lt_of_getElem? hx) (Nat.not_lt.mpr hk)
      · rw [(hnew k hk').1, (hnew k hk').2]
    · rw [hc]
      rfl
    · rw [hc]
      exact fun _ => id

variable [Crates]

/-- A poll of the connection. -/
theorem Booked.poll {r : Outcome IoError Unit} (h : Booked w done) (hrun : w.phase = .running)
    (hx : ClientPost w.conn r w'.conn) (hn : w'.issued = w.issued)
    (hp : w'.phase = .running → r = .pending) : ∃ done', Booked w' done' := by
  have hr := hx.requests
  have hmoves : ∀ {c₁}, Moves w.conn c₁ → TxClean c₁.io.inner.tx ∧
      ∃ done', Ledger c₁ done' ∧ Live c₁ done' := fun hm =>
    moves_keep (I := fun c₁ => TxClean c₁.io.inner.tx ∧ ∃ done', Ledger c₁ done' ∧ Live c₁ done')
      (fun _ _ hm hc => by
        obtain ⟨htx, done₁, hl, hv⟩ := hc
        exact ⟨htx.suffix hm.tx, hm.ledger hl hv⟩)
      hm ⟨h.tx, done, h.ledger, h.live hrun⟩
  have hdone : ∀ {done'}, Ledger w'.conn done' → TxClean w'.conn.io.inner.tx →
      (r = .pending → Live w'.conn done') → ∃ done', Booked w' done' := fun hl htx hv =>
    ⟨_, hl, htx, by rw [hr.sent, h.issued, hn], by rw [hr.ended, hr.receivers]; exact h.ended,
      fun hrun' => hv (hp hrun')⟩
  cases r with
  | ready _ =>
      obtain ⟨hm, -⟩ := hx
      obtain ⟨htx, done', hl, hv⟩ := hmoves hm
      exact hdone hl htx (by simp)
  | pending =>
      obtain ⟨c₁, hm, hs⟩ := hx
      obtain ⟨htx, done₁, hl, hv⟩ := hmoves hm
      obtain ⟨done', hl', hv'⟩ := hs.live hl hv
      exact hdone hl' (htx.suffix hs.tx) fun _ => hv'
  | fail e =>
      obtain ⟨c₁, c₂, hm, hs, heq⟩ := hx
      obtain ⟨htx, done₁, hl, hv⟩ := hmoves hm
      obtain ⟨done', hl'⟩ := hs.ledger hl hv htx
      obtain ⟨res, resBody, hf⟩ := tryForwardError_keeps e c₂
      rw [hf] at heq
      have hl₂ : Ledger w'.conn done' := by
        rw [heq]
        exact hl'.of_eq rfl (List.prefix_refl _) (fun _ _ => List.prefix_refl _) fun _ => id
      refine hdone hl₂ ?_ (by simp)
      rw [heq]
      exact htx.suffix hs.tx
  | panic m =>
      obtain ⟨c₁, hm, hs⟩ := hx
      obtain ⟨htx, done₁, hl, hv⟩ := hmoves hm
      obtain ⟨done', hl'⟩ := hs.ledger hl hv htx
      exact hdone hl' (htx.suffix hs.tx) (by simp)
  | diverge => exact hx.elim

end Booked

variable [VecAlloc] [Crates] {w w' : World} {a : Action} {o : Obs} {done : List Sent}

/-- Every step keeps the books. -/
theorem Acts.booked (h : Acts w a o w') (hw : w.conn.io.Sound) (hb : Booked w done) :
    ∃ done', Booked w' done' := by
  cases h with
  | idle => exact ⟨done, hb⟩
  | refused hr => exact ⟨done, hb⟩
  | request hm hs hr hl hn => exact ⟨done, hb.request hr rfl rfl rfl⟩
  | cloned hs => exact ⟨done, hb.beside rfl rfl rfl ⟨rfl, rfl, rfl⟩ rfl (fun _ => .refl _) rfl rfl⟩
  | dropRequest hs =>
      exact ⟨done, hb.beside rfl rfl rfl
        ⟨Chan.sent_dropSender, Chan.ended_dropSender, Chan.receivers_dropSender⟩
        Chan.queue_dropSender (fun _ => .refl _) rfl rfl⟩
  | @poll cx r c hp hx =>
      refine hb.poll hp (wp_elim (pollClient_moves hw) hx) rfl fun hrun => ?_
      by_cases hr : r = .pending
      · exact hr
      · rw [show (if r = .pending then ConnPhase.running else .complete) = .complete from if_neg hr]
          at hrun
        cases hrun
  | dropConn hp =>
      obtain ⟨hr, hsent⟩ := sent_dropConn w.conn
      have hc := sameCodec_dropConn w.conn
      refine ⟨done, ?_, ?_, ?_, ?_, by simp⟩
      · refine hb.ledger.of_eq (by rw [hc.io]) ?_ (fun k _ => hsent k) fun i hi => hc.complete ▸ hi
        have hs : (Client.dropConn w.conn).reqRx.sent = w.conn.reqRx.sent := by
          rw [hr, Chan.dropReceiver_sent]
        exact hs ▸ List.prefix_refl _
      · rw [hc.io]
        exact hb.tx
      · rw [hr, Chan.dropReceiver_sent]
        exact hb.issued
      · rw [hr]
        exact Chan.dropReceiver_dead hb.ended
  | wait hf hq hn => exact ⟨done, hb.beside rfl rfl rfl (.refl _) rfl (fun _ => .refl _) rfl rfl⟩
  | resolve hf hq =>
      refine ⟨done, Booked.dropFuture _ ?_⟩
      exact hb.beside rfl rfl rfl (.refl _) rfl (fun _ => .refl _) rfl rfl
  | unanswered hf hq hn =>
      refine ⟨done, Booked.dropFuture _ ?_⟩
      exact hb.beside rfl rfl rfl (.refl _) rfl (fun _ => .refl _) rfl rfl
  | dropFuture hf => exact ⟨done, hb.dropFuture _⟩
  | read hr hp => exact ⟨done, hb.beside rfl rfl rfl (.refl _) rfl (fun _ => .refl _) rfl rfl⟩
  | dropRecv hr => exact ⟨done, hb.beside rfl rfl rfl (.refl _) rfl (fun _ => .refl _) rfl rfl⟩
  | @sendData i owned cx bs fin send send' o rb hs hp =>
      refine ⟨done, hb.beside rfl rfl rfl (.refl _) rfl (feeds_atId (g := fun _ => rb) ?_) rfl rfl⟩
      have hsend := wp_elim SendStream.pollSendData_chan hp
      rcases hsend with hq | ⟨-, out, heq⟩
      · exact feeds_quiet hq
      · rw [show rb = _ from heq]
        exact feeds_enqueue _
  | dropSend hs =>
      exact ⟨done, hb.beside rfl rfl rfl (.refl _) rfl (feeds_atId feeds_dropSender) rfl rfl⟩

omit [VecAlloc] [Crates] in
theorem booked_handshake {inner : Transport} (h0 : inner.written = []) (htx : TxClean inner.tx) :
    Booked (handshake inner) [] where
  ledger := ⟨List.nil_prefix, fun _ _ hk => absurd hk getElem?_nil_ne,
    fun _ _ _ hk => absurd hk getElem?_nil_ne, (BufIo.given_withCapacity _ inner).trans h0⟩
  tx := htx
  issued := rfl
  ended := by intros; contradiction
  live := fun _ => ⟨fun _ _ hk => absurd hk getElem?_nil_ne, rfl,
    fun _ _ _ hk => absurd hk getElem?_nil_ne, fun _ _ hk => absurd hk getElem?_nil_ne⟩

/-- **The books of a run** in which the writer does not fail. -/
theorem run_booked {inner : Transport} (h0 : inner.written = []) (htx : TxClean inner.tx)
    (as : List Action) : ∃ done, Booked (Runs.after step as (handshake inner)) done := by
  have hstep : ∀ (w : World) (a : Action), w.conn.io.Sound ∧ (∃ done, Booked w done) → True →
      (step a w).2.conn.io.Sound ∧ ∃ done, Booked (step a w).2 done := by
    intro w a hw _
    obtain ⟨hs, done, hb⟩ := hw
    exact ⟨(step_acts a w).sound hs, (step_acts a w).booked hs hb⟩
  exact (Runs.run_invariant (I := fun w : World => w.conn.io.Sound ∧ ∃ done, Booked w done) hstep
    (Runs.along_true as _)
    ⟨BufIo.sound_withCapacity (by decide) inner, [], booked_handshake h0 htx⟩).2

end HreqH1.Client
