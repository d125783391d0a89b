import HreqH1.Client.Streams

/-!
# Client — the end of a response's body

A `RecvStream` sees the end of its body where the channel of that is closed, and the codec drops the
sender with its state: when the body is complete, or with the connection.  An error is sent on to a body
that is being received, but not to one whose request is still being sent; and a connection that is
dropped tells nobody.  These steps `Truncates` is about; in a run without them every end is one
(`read_end_received`).
-/

namespace HreqH1.Client
open PollM Runs RecvStream

/-- The number of the body whose sender the codec has. -/
def State.bodyTx : State → Option Nat
  | .sendReq => none
  | .recvRes h => h.holder.map Prod.fst
  | .recvBody h => some h.bodyTx

/-- A body is on its way to a `RecvStream`: the codec has the sender, and it is not complete. -/
def Arriving (c : Conn) : Prop :=
  ∃ i ∈ c.state.bodyTx, (c.resBody i).receivers ≠ 0 ∧ i ∉ c.complete

instance : DecidablePred Arriving := fun c =>
  inferInstanceAs (Decidable (∃ i ∈ c.state.bodyTx, _))

theorem arriving_of_sends {c : Conn} {i : Nat} (hs : Sends c i) (h0 : (c.resBody i).receivers ≠ 0)
    (hi : i ∉ c.complete) : Arriving c := by
  refine ⟨i, ?_, h0, hi⟩
  rw [Sends] at hs
  cases hst : c.state with
  | sendReq =>
      rw [hst] at hs
      exact hs.elim
  | recvRes h =>
      rw [hst] at hs
      obtain ⟨limit, hh⟩ := hs
      rw [State.bodyTx, hh]
      rfl
  | recvBody h =>
      rw [hst] at hs
      obtain rfl := hs
      rfl

variable [VecAlloc] [Crates]

/-- A poll has ended the connection, and sends no error on to a body. -/
def Obs.untold : Obs → State → Bool
  | .conn (.fail _), .recvRes _ => true
  | .conn (.panic _), _ => true
  | _, _ => false

/-- The step breaks a body off, and its `RecvStream` is not told. -/
def Truncates (w : World) (a : Action) : Prop :=
  w.phase = .running ∧ (a = .dropConn ∧ Arriving w.conn ∨
    (step a w).1.untold (step a w).2.conn.state = true ∧ Arriving (step a w).2.conn)

instance (w : World) : DecidablePred (Truncates w) := fun _ => inferInstanceAs (Decidable (_ ∧ _))

/-- A read of the `i`-th body has failed. -/
def ReadFailed (os : List Obs) (i : Nat) : Prop := ∃ o ∈ os, o.failsRead i

/-- What the `RecvStream`s of a connection have been told by the observations `os`. -/
structure Told (os : List Obs) (w : World) : Prop where
  sound : w.conn.io.Sound
  lined : ∃ k, Lined k w.issued w.conn
  served : Streams w.issued w.recv (ReadFailed os) w.conn
  sourced : w.phase ≠ .dropped → Sourced w.conn
  done : w.phase = .complete → ∀ i, Sends w.conn i → streams w.recv w.conn i ≠ [] →
    (i ∈ w.conn.complete ∨ ReadFailed os i) ∨ Failing (w.conn.resBody i)

variable {os : List Obs} {w w' : World} {a : Action} {o : Obs} {i : Nat}

omit [VecAlloc] [Crates] in
theorem readFailed_concat (h : ReadFailed os i ∨ o.failsRead i) : ReadFailed (os ++ [o]) i := by
  rcases h with ⟨o', ho, hf⟩ | hf
  · exact ⟨o', List.mem_append_left _ ho, hf⟩
  · exact ⟨o, List.mem_append_right _ List.mem_cons_self, hf⟩

section Connection
variable {n : Nat} {recv : Nat → Option RecvStream} {told : Nat → Prop} {c c' : Conn}
omit [VecAlloc]

omit [Crates] in
theorem Streams.complete (h : Streams n recv told c) (ha : ¬ Arriving c) (hs : Sends c i)
    (hne : Client.streams recv c i ≠ []) : i ∈ c.complete := by
  by_contra hi
  exact ha (arriving_of_sends hs ((h.served i).alive hne) hi)

/-- A poll that ends the connection has received the body, or the `RecvStream` is told. -/
theorem ClientPost.tells {r : Outcome IoError Unit} (hx : ClientPost c r c')
    (h : Kept n recv told c) (hr : r ≠ .pending)
    (ht : (Obs.conn r).untold c'.state = true → ¬ Arriving c') (hs : Sends c' i)
    (hne : Client.streams recv c' i ≠ []) : i ∈ c'.complete ∨ Failing (c'.resBody i) := by
  have h' := hx.kept h
  cases r with
  | ready _ => exact .inl (hx.2.complete hs)
  | pending => exact absurd rfl hr
  | panic m => exact .inl (h'.streams.complete (ht rfl) hs hne)
  | diverge => exact hx.elim
  | fail e =>
      obtain ⟨c₁, c₂, hm, hst, rfl⟩ := hx
      have hstate : (tryForwardError e c₂).state = c₂.state := by
        obtain ⟨res, resBody, heq⟩ := tryForwardError_keeps e c₂
        rw [heq]
      rw [hstate] at ht
      cases hc : c₂.state with
      | sendReq =>
          rw [Sends, hstate, hc] at hs
          exact hs.elim
      | recvRes b => exact .inl (h'.streams.complete (ht (by rw [hc]; rfl)) hs hne)
      | recvBody b =>
          have h₂ : Kept n recv told c₂ :=
            hst.kept (moves_keep (fun _ _ hm => hm.kept) hm h)
          rw [Sends, hstate, hc] at hs
          obtain rfl := hs
          refine .inr (failing_tryForwardError e hc (h₂.streams.resBody _) ?_)
          refine ((h₂.streams.served b.bodyTx).alive ?_)
          rw [tryForwardError, hc] at hne
          exact hne

end Connection

/-! ### Runs -/

theorem told_step (h : Told os w) (ht : ¬ Truncates w a) :
    Told (os ++ [(step a w).1]) (step a w).2 := by
  obtain ⟨k, hl⟩ := h.lined
  have hlined := step_lined h.sound hl a
  have ha := step_acts a w
  have hsound := ha.sound h.sound
  have hcut : w.phase = .running → (a = .dropConn → ¬ Arriving w.conn) ∧
      ((step a w).1.untold (step a w).2.conn.state = true → ¬ Arriving (step a w).2.conn) :=
    fun hp => ⟨fun heq harr => ht ⟨hp, .inl ⟨heq, harr⟩⟩, fun hu harr => ht ⟨hp, .inr ⟨hu, harr⟩⟩⟩
  generalize (step a w).1 = o at ha hcut
  generalize (step a w).2 = w' at ha hcut hsound hlined ⊢
  have hmono : ∀ i, ReadFailed os i → ReadFailed (os ++ [o]) i := fun i hf =>
    readFailed_concat (.inl hf)
  by_cases hconn : a.onConn = false
  · have hon := ha.onHandle hconn hl h.served
    obtain ⟨hphase, -, hstate, hcomp, -⟩ := ha.beside hconn
    have hsends : ∀ i, Sends w'.conn i → Sends w.conn i := fun i hs => by
      rw [Sends, hstate] at hs
      exact hs
    have hserved := (h.served.uses hon.awaits hon.uses hon.res hcomp).mono
      fun i (hf : ReadFailed os i ∨ o.failsRead i) => readFailed_concat hf
    refine ⟨hsound, hlined, hserved, fun hp i hs => ?_, fun hp i hs hne => ?_⟩
    · rw [(hon.uses i).senders (h.served.served i).fits]
      exact h.sourced (hphase ▸ hp) i (hsends i hs)
    · rw [hcomp]
      refine ((hon.uses i).tells (h.served.served i).fits
        (h.done (hphase ▸ hp) i (hsends i hs)) hne).imp_left fun ht => ?_
      exact (or_assoc.mp ht).imp_right readFailed_concat
  · cases ha with
    | idle =>
        refine ⟨hsound, hlined, h.served.mono hmono, h.sourced, fun hp i hs hne => ?_⟩
        exact (h.done hp i hs hne).imp_left (Or.imp_right (hmono i))
    | @poll cx r c hrun hx =>
        have hpost := wp_elim (pollClient_moves h.sound) hx
        have hsourced := h.sourced (by rw [hrun]; simp)
        have hkept := hpost.kept ⟨h.lined, h.served, hsourced⟩
        refine ⟨hsound, hlined, hkept.streams.mono hmono, fun _ => hkept.sourced,
          fun hp i hs hne => ?_⟩
        have hr : r ≠ .pending := by
          rintro rfl
          cases hp
        exact (hpost.tells ⟨h.lined, h.served, hsourced⟩ hr (hcut hrun).2 hs hne).imp_left .inl
    | dropConn hp =>
        refine ⟨hsound, hlined, (h.served.dropConn fun i hs hne => ?_).mono hmono,
          fun hd => absurd rfl hd, fun hd => by cases hd⟩
        cases hphase : w.phase with
        | running => exact .inl (.inl (h.served.complete ((hcut hphase).1 rfl) hs hne))
        | complete => exact h.done hphase i hs hne
        | dropped => exact absurd hphase hp
    | _ => exact absurd rfl hconn

theorem told_after (inner : Transport) {as : List Action}
    (h : Along step (fun w a => ¬ Truncates w a) as (handshake inner)) :
    Told (run step as (handshake inner)).1 (after step as (handshake inner)) := by
  have h₀ : Told [] (handshake inner) := by
    have hio := run_lined inner []
    refine ⟨hio.1, hio.2, ⟨fun i _ => rfl, fun i => .nil, fun i => Chan.single_new 1,
      fun i => Chan.single_new 1⟩, fun _ i hs => hs.elim, fun hp => by cases hp⟩
  exact run_history (I := Told) (fun _ _ _ hI ht => told_step hI ht) h h₀

/-- **The end that is read is the end of the body**, in a run no step of which breaks one off: a read of
the `i`-th body returns nothing only if that is complete, or a read of it has failed before. -/
theorem read_end_received (inner : Transport) (as : List Action) (i : Nat) (cx : Waker) (n : Nat)
    (h : Along step (fun w a => ¬ Truncates w a) as (handshake inner)) :
    let w := after step as (handshake inner)
    (step (.read i cx n) w).1 = .read i (.ready []) →
      i ∈ w.conn.complete ∨ ReadFailed (run step as (handshake inner)).1 i := by
  intro w hread
  have ht : Told _ w := told_after inner h
  have ha : Acts w _ _ _ := step_acts (.read i cx n) w
  generalize (step (.read i cx n) w).1 = o at ha hread
  generalize (step (.read i cx n) w).2 = w' at ha
  subst hread
  cases ha with
  | @read _ _ _ r r' _ body hr hp =>
      have hmem : r ∈ Client.streams w.recv w.conn i := by
        rw [Client.streams, hr]
        exact List.mem_cons_self
      have hs := ht.served.served i
      obtain ⟨h0, hq, -⟩ := pollBodyData_end (hs.fits r hmem) hp
      refine (hs.closed (List.ne_nil_of_mem hmem) h0).resolve_right ?_
      rintro ⟨e, he⟩
      rw [hq] at he
      cases he

/-- The head of a response with a body of two bytes. -/
def twoByteHead : Bytes := ascii "HTTP/1.1 200 OK\r\ncontent-length: 2\r\n\r\n"

/-- A body that comes in two pieces is read. -/
def readTwo : List Action :=
  [.sendRequest ⟨.get, ⟨none, none, none, some (ascii "/")⟩, .http11, []⟩ true, .pollConn 0,
    .pollFuture 0 0, .read 0 0 9, .pollConn 0, .read 0 0 9]

/-- A peer that answers with it. -/
def twoBytes : Transport := ⟨[.data (twoByteHead ++ ascii "h"), .data (ascii "i")], false, [], [], 0⟩

/-- The parser of that head. -/
@[reducible] def twoByteCrates : Crates :=
  .table [] [(twoByteHead, ⟨some 1, some 200, [(ascii "content-length", ascii "2")]⟩)]

omit [VecAlloc] [Crates] in
theorem readTwo_untruncated :
    letI := VecAlloc.amortized
    letI := twoByteCrates
    Along step (fun w a => ¬ Truncates w a) readTwo (handshake twoBytes) ∧
      (step (.read 0 0 9) (after step readTwo (handshake twoBytes))).1 = .read 0 (.ready []) :=
  ⟨⟨by decide +kernel, by decide +kernel, by decide +kernel, by decide +kernel, by decide +kernel,
    by decide +kernel, trivial⟩, by decide +kernel⟩

omit [VecAlloc] [Crates] in
theorem readTwo_end :
    letI := VecAlloc.amortized
    letI := twoByteCrates
    let w := after step readTwo (handshake twoBytes)
    (step (.read 0 0 9) w).1 = .read 0 (.ready []) ∧ (0 ∈ w.conn.complete ∨
      ReadFailed (run step readTwo (handshake twoBytes)).1 0) :=
  ⟨readTwo_untruncated.2, @read_end_received VecAlloc.amortized twoByteCrates twoBytes readTwo 0 0 9
    readTwo_untruncated.1 readTwo_untruncated.2⟩

end HreqH1.Client
