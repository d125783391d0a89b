import HreqH1.Client.Ledger

/-!
# Client — what goes over the wire

`wire c`: the head of each request that has been sent, with the chunks of its body up to the one that
ends it, in the order of the requests.  Of every run in which the writer does not fail, what the
transport has accepted is a prefix of it.
-/

namespace HreqH1.Client
open PollM Runs BufIo

/-- The items of a body up to the one that ends it. -/
def upToEnd : List (Bytes × Bool) → List (Bytes × Bool)
  | [] => []
  | x :: items => if x.2 then [x] else x :: upToEnd items

/-- What the `i`-th request puts on the wire, as far as its body has been sent. -/
def requestBytes (c : Conn) (i : Nat) (h : Handle) : Bytes :=
  headBytes h.req ++ if h.bodyRx = none then [] else chunks (upToEnd (c.reqBody i).sent)

/-- What all requests do. -/
def wire (c : Conn) : Bytes := (c.reqRx.sent.mapIdx (requestBytes c)).flatten

/-! ### Bodies -/

section UpToEnd
variable {items sent : List (Bytes × Bool)}

theorem upToEnd_prefix (h : items <+: sent) (hx : ∀ x ∈ items.dropLast, x.2 = false) :
    items <+: upToEnd sent := by
  induction items generalizing sent with
  | nil => exact List.nil_prefix
  | cons x items ih =>
      obtain ⟨rest, rfl⟩ := h
      cases items with
      | nil =>
          rw [List.cons_append, upToEnd]
          split
          · exact List.prefix_refl _
          · exact (List.prefix_cons_inj x).mpr List.nil_prefix
      | cons y items =>
          have hne : x.2 = false := hx x List.mem_cons_self
          rw [List.cons_append, upToEnd, if_neg (by rw [hne]; exact Bool.false_ne_true)]
          exact (List.prefix_cons_inj x).mpr
            (ih ⟨rest, rfl⟩ fun z hz => hx z (List.mem_cons_of_mem _ hz))

theorem upToEnd_eq (h : items <+: sent) (hx : ∀ x ∈ items.dropLast, x.2 = false)
    (hl : items.getLast?.any Prod.snd = true) : upToEnd sent = items := by
  induction items generalizing sent with
  | nil => cases hl
  | cons x items ih =>
      obtain ⟨rest, rfl⟩ := h
      cases items with
      | nil => rw [List.cons_append, upToEnd, if_pos (show x.2 = true from hl)]
      | cons y items =>
          have hne : x.2 = false := hx x List.mem_cons_self
          rw [List.cons_append, upToEnd, if_neg (by rw [hne]; exact Bool.false_ne_true),
            ih ⟨rest, rfl⟩ (fun z hz => hx z (List.mem_cons_of_mem _ hz)) hl]

end UpToEnd

/-! ### Requests -/

/-- Lists put together: whole ones, and a prefix of the next. -/
theorem flatMap_prefix {α β : Type} {f : α → List β} {l : List α} {m : List (List β)}
    (h : ∀ k a, l[k]? = some a → ∃ b, m[k]? = some b ∧ f a <+: b ∧ (k + 1 < l.length → f a = b)) :
    l.flatMap f <+: m.flatten := by
  induction l generalizing m with
  | nil => exact List.nil_prefix
  | cons a l ih =>
      obtain ⟨b, hm, hp, heq⟩ := h 0 a rfl
      cases m with
      | nil => cases hm
      | cons b' m =>
          obtain rfl : b' = b := Option.some.inj hm
          rw [List.flatMap_cons, List.flatten_cons]
          cases l with
          | nil =>
              rw [List.flatMap_nil, List.append_nil]
              exact hp.trans (List.prefix_append _ _)
          | cons a' l =>
              rw [heq (Nat.succ_lt_succ (Nat.succ_pos _))]
              refine (List.prefix_append_right_inj _).mpr (ih fun k x hk => ?_)
              obtain ⟨y, hy, hpre, hwhole⟩ := h (k + 1) x hk
              exact ⟨y, hy, hpre, fun hlt => hwhole (Nat.succ_lt_succ hlt)⟩

section Ledger
variable {c : Conn} {done : List Sent} {s : Sent} {k : Nat}

/-- What has been taken of a request is a prefix of what it puts on the wire. -/
theorem Ledger.bytes_prefix (h : Ledger c done) (hk : done[k]? = some s) :
    s.bytes <+: requestBytes c k s.handle := by
  obtain ⟨hwf, hitems⟩ := h.items k s hk
  refine (List.prefix_append_right_inj _).mpr ?_
  split
  · next hn =>
    rw [hwf.noBody hn]
    exact List.nil_prefix
  · obtain ⟨rest, hrest⟩ := upToEnd_prefix hitems hwf.ends
    exact ⟨chunks rest, by rw [← hrest, chunks, chunks, chunks, List.flatMap_append]⟩

/-- Of a request that is closed, it is all. -/
theorem Ledger.bytes_eq (h : Ledger c done) (hk : done[k]? = some s) (hc : s.Closed) :
    s.bytes = requestBytes c k s.handle := by
  obtain ⟨hwf, hitems⟩ := h.items k s hk
  refine congrArg (headBytes s.handle.req ++ ·) ?_
  split
  · next hn =>
    rw [hwf.noBody hn]
    rfl
  · next hn => rw [upToEnd_eq hitems hwf.ends (hc.resolve_left hn)]

/-- All that has been given to the writer is a prefix of what goes over the wire. -/
theorem Ledger.given_prefix (h : Ledger c done) : c.io.given <+: wire c := by
  rw [h.given]
  refine flatMap_prefix fun k s hk => ?_
  have hs : c.reqRx.sent[k]? = some s.handle := by
    obtain ⟨rest, hrest⟩ := h.handles
    rw [← hrest, List.getElem?_append_left (by rw [List.length_map]; exact lt_of_getElem? hk),
      List.getElem?_map, hk]
    rfl
  refine ⟨requestBytes c k s.handle, ?_, h.bytes_prefix hk, fun hlt => ?_⟩
  · rw [List.getElem?_mapIdx, hs]
    rfl
  · exact h.bytes_eq hk (h.closed k s hlt hk).2

end Ledger

/-! ### Runs -/

section Given
variable [Crates] {c c' : Conn}

omit [Crates] in
theorem given_prefix {bs : Bytes} {io io' : BufIo} (h : Writes bs io io') : io.given <+: io'.given :=
  ⟨bs, h.given.symm⟩

/-- Nothing is taken back from the writer. -/
theorem Move.given (h : Move c c') : c.io.given <+: c'.io.given := by
  cases h with
  | write hw ht => exact given_prefix hw
  | read hr => exact hr.given ▸ List.prefix_refl _
  | request hs ht hh hw hio => exact given_prefix hw
  | response hs hi hf hp => exact hf.reads.given ▸ List.prefix_refl _
  | item hs hi ht hw hio => exact given_prefix hw
  | chunk hs hc ho hn hl hr hne => obtain ⟨front, hr⟩ := hr; exact hr.given ▸ List.prefix_refl _
  | lastRead hs hc hn hl hr he => obtain ⟨front, hr⟩ := hr; exact hr.given ▸ List.prefix_refl _
  | _ => exact List.prefix_refl _

theorem Stop.given {k : Halt IoError} (h : Stop k c c') : c.io.given <+: c'.io.given := by
  cases h with
  | writePending hw ht hlt => exact given_prefix hw
  | writeFailed hw ht why => exact given_prefix hw
  | grow hr hg => exact hr.given ▸ List.prefix_refl _
  | requestFailed hs ht hw hio why => exact given_prefix hw
  | headPending hs hi hb hr hbl => exact hr.given ▸ List.prefix_refl _
  | headMissing hs hi hr why => exact hr.given ▸ List.prefix_refl _
  | headInvalid hs hi hf hp hk => exact hf.reads.given ▸ List.prefix_refl _
  | headPendingSent hs hi ht hr hw hio => exact hr.given ▸ given_prefix hw
  | itemFailed hs hi ht hw hio why => exact given_prefix hw
  | limitPending hs hc hn hl hr hw => obtain ⟨front, hr⟩ := hr; exact hr.given ▸ List.prefix_refl _
  | limitFailed hs hc hl hn hr hk why => obtain ⟨front, hr⟩ := hr; exact hr.given ▸ List.prefix_refl _
  | _ => exact List.prefix_refl _

theorem ClientPost.given {r : Outcome IoError Unit} (h : ClientPost c r c') :
    c.io.given <+: c'.io.given :=
  h.keeps (I := fun c' => c.io.given <+: c'.io.given) (fun _ _ hm hc => hc.trans hm.given)
    (fun _ _ _ hs hc => hc.trans hs.given)
    (fun e c₁ hc => by rw [io_tryForwardError]; exact hc) (List.prefix_refl _)

end Given

variable [VecAlloc] [Crates]

/-- Nothing is taken back from the writer in a run. -/
theorem run_given {w : World} (hw : w.conn.io.Sound) (as : List Action) :
    w.conn.io.given <+: (Runs.after step as w).conn.io.given := by
  have hstep : ∀ (w₁ : World) (a : Action),
      w₁.conn.io.Sound ∧ w.conn.io.given <+: w₁.conn.io.given → True →
      (step a w₁).2.conn.io.Sound ∧ w.conn.io.given <+: (step a w₁).2.conn.io.given := by
    intro w₁ a hw₁ _
    have ha := step_acts a w₁
    refine ⟨ha.sound hw₁.1, hw₁.2.trans ?_⟩
    rcases ha.codec with ⟨cx, r, -, hx⟩ | hs
    · exact ClientPost.given (wp_elim (pollClient_moves hw₁.1) hx)
    · exact hs.io ▸ List.prefix_refl _
  exact (Runs.run_invariant
    (I := fun w₁ : World => w₁.conn.io.Sound ∧ w.conn.io.given <+: w₁.conn.io.given) hstep
    (Runs.along_true as _) ⟨hw, List.prefix_refl _⟩).2

theorem run_sound (inner : Transport) (as : List Action) :
    (Runs.after step as (handshake inner)).conn.io.Sound :=
  Runs.run_invariant (I := fun w : World => w.conn.io.Sound)
    (fun w a hw _ => (step_acts a w).sound hw) (Runs.along_true as _)
    (BufIo.sound_withCapacity (by decide) inner)

/-- What the writer has been given: the requests of `done`, in order, of each but the last the whole
body.  The next is begun when the body has been taken, and the response received, to the end. -/
structure Wired (c : Conn) (done : List Sent) : Prop where
  bytes : c.io.inner.written ++ c.io.backlog = done.flatMap Sent.bytes
  handles : done.map Sent.handle <+: c.reqRx.sent
  begun : ∀ k s, done[k]? = some s → s.bytes <+: requestBytes c k s.handle
  whole : ∀ k s, k + 1 < done.length → done[k]? = some s →
    k ∈ c.complete ∧ s.Closed ∧ s.bytes = requestBytes c k s.handle

omit [VecAlloc] [Crates] in
theorem Ledger.wired {c : Conn} {done : List Sent} (h : Ledger c done) : Wired c done where
  bytes := h.given
  handles := h.handles
  begun := fun _ _ hk => h.bytes_prefix hk
  whole := fun k s hlt hk =>
    have hc := h.closed k s hlt hk
    ⟨hc.1, hc.2, h.bytes_eq hk hc.2⟩

/-- A transport that takes three bytes, and then none for now. -/
def threeBytes : Transport := ⟨[], false, [.accept 3, .pending, .pending], [], 0⟩

/-- A request, and a poll. -/
def askSlash : List Action :=
  [.sendRequest ⟨.get, ⟨none, none, none, some (ascii "/")⟩, .http11, []⟩ true, .pollConn 0]

end HreqH1.Client
