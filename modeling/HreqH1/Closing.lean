import HreqH1.Client.Reuse
import HreqH1.Framing.Connection
import HreqH1.Server.Reuse
import HreqH1.Server.Wiring

/-!
# Closing — what the peer announces

A peer closes the connection with a `connection` field.  Neither codec uses it again where
`allow_reuse` says so: the server receives nothing after such a request (`closing_request_last`), and
the client sends nothing after such an exchange (`Client.left_allows_reuse`).

So a `close` among the options is obeyed wherever the head is not misread
(`allow_reuse_honours`).
-/

namespace HreqH1
open PollM Runs
variable [VecAlloc] [Crates]

namespace Server

/-- The request at hand is the last of the connection, or the connection has ended. -/
def OnLast (c : Conn) : Prop := c.state.allowsReuse = false

section Moves
variable {c c' : Conn} {want reg : Bool} {cx : Waker}

omit [VecAlloc] [Crates] in
theorem OnLast.of_state (h : OnLast c) (hs : c'.state.allowsReuse = c.state.allowsReuse) : OnLast c' :=
  hs.trans h

omit [VecAlloc] in
/-- No move goes on to another request. -/
theorem Move.onLast (h : Move want c c') (hl : OnLast c) : OnLast c' := by
  cases h with
  | write hw ht hi => exact hl
  | read hr hp => exact hl
  | wake hq => exact hl
  | request hs hf hp hwant =>
      rw [OnLast, hs] at hl
      cases hl
  | hangUp hs hr why => exact rfl
  | response hs hrx ht hh hw hio hi => exact hl.of_state (by rw [hs]; rfl)
  | chunk hs hb ho hn hl' hr hc hp hu => exact hl.of_state (by rw [hs]; rfl)
  | entire hs hb ho he hl' hne hr hu hp => exact hl.of_state (by rw [hs]; rfl)
  | responded hs hrx hb hh hn => exact hl.of_state (by rw [hs]; exact allowsReuse_after _)
  | toBody hs hrx hb hh hn => exact hl.of_state (by rw [hs]; rfl)
  | item hs ht hw hio => exact hl
  | lastItem hs ht hw hio hf => exact hl.of_state (by rw [hs]; exact allowsReuse_after _)

omit [VecAlloc] in
theorem Stop.onLast {k : Halt IoError} (h : Stop k c c') (hl : OnLast c) : OnLast c' := by
  cases h with
  | responseCut hs hrx ht hw hio hkp why => exact hl.of_state (by rw [hs]; rfl)
  | limitPending hs hb ho hn hl' hr hw => exact hl.of_state (by rw [hs]; rfl)
  | limitFailed hs hb hn hl' hr hkp why => exact hl.of_state (by rw [hs]; rfl)
  | itemPending hs ht hw hio hp hlt hf => exact hl
  | itemFailed hs ht hw hio why => exact hl
  | _ => exact hl

theorem Polls.onLast {r : Outcome IoError (Option Package)} (h : Polls want c r c')
    (hc : c.io.Sound) (hl : OnLast c) : OnLast c' :=
  (h.post hc).keeps (fun _ _ hm => hm.onLast) (fun _ _ _ hs => hs.onLast) (fun _ _ => rfl) hl

/-- A round of the loop hands out no request. -/
theorem driveRound_onLast (hc : c.io.Sound) (hl : OnLast c) :
    wp (driveRound cx want reg ())
      (roundPost (fun _ _ => True) fun r _ => ∀ p, r ≠ .ready (some p)) c := by
  rw [driveRound, wp_bind]
  refine (finishPending_moves want hc).mono fun r c₁ hs => ?_
  cases r with
  | ready _ =>
      obtain ⟨hm, -, -, hstate⟩ := hs
      have hl₁ : OnLast c₁ := hl.of_state (congrArg State.allowsReuse hstate)
      dsimp only [bindPost]
      rw [wp_bind, wp_get, bindPost]
      cases hst : c₁.state with
      | recvReq =>
          rw [OnLast, hst] at hl₁
          cases hl₁
      | sendRes h =>
          dsimp only
          rw [wp_bind, wp_zoom]
          refine wp_intro fun r s _ => ?_
          cases r with
          | ready next => trivial
          | _ => simp [bindPost, roundPost]
      | sendBody h =>
          dsimp only
          rw [wp_bind, wp_zoom]
          refine wp_intro fun r s _ => ?_
          cases r with
          | ready next => trivial
          | _ => simp [bindPost, roundPost]
      | closed => simp [roundPost]
  | _ => simp [bindPost, roundPost]

/-- **On the last request, a poll hands out no other.** -/
theorem Polls.no_request {r : Outcome IoError (Option Package)} (h : Polls want c r c')
    (hc : c.io.Sound) (hl : OnLast c) (p : Package) : r ≠ .ready (some p) := by
  obtain ⟨cx, reg, h⟩ := h
  have hdec : Decreases (fun _ c => c.io.Sound ∧ OnLast c) (fun _ => driveWeight)
      (driveRound cx want reg) := by
    intro u s v t hJ hx
    have hround : wp (driveRound cx want reg ()) _ s := driveRound_moves hJ.1
    obtain ⟨hm, hio, hlt⟩ := wp_elim hround hx
    exact ⟨⟨hio, moves_keep (fun _ _ hm => hm.onLast) hm hJ.2⟩, hlt⟩
  have hd : wp (drive cx want reg) (fun r _ => ∀ p, r ≠ .ready (some p)) c :=
    wp_loop hdec (fun _ _ => True) (fun _ _ hJ _ => driveRound_onLast hJ.1 hJ.2) ⟨hc, hl⟩ trivial
  rw [wp] at hd
  rw [pollServer] at h
  rcases hx : drive cx want reg c with ⟨r', c₁⟩
  rw [hx] at h hd
  cases r' with
  | ready package =>
      obtain ⟨rfl, -⟩ := Prod.mk.inj h
      exact hd p
  | _ =>
      obtain ⟨rfl, -⟩ := Prod.mk.inj h
      simp

end Moves

/-- A step keeps the codec on the last request. -/
theorem onLast_step {w : World} (hio : w.conn.io.Sound) (hl : OnLast w.conn) (a : Action) :
    OnLast (step a w).2.conn := by
  have ha := step_acts a w
  generalize (step a w).1 = o at ha
  generalize (step a w).2 = w' at ha ⊢
  cases ha with
  | accept hh hp => exact hp.onLast hio hl
  | noAccept hh hp hr => exact hp.onLast hio hl
  | close hp => exact hp.onLast hio hl
  | read hr hp hb hd => exact hp.onLast hio hl
  | noRead hr hp ho hd => exact hp.onLast hio hl
  | drive hp hd => exact hp.onLast hio hl
  | _ => exact hl

/-- What an `accept` that hands out a request comes to. -/
theorem accepted_polls {w : World} {a : Action} {req : Request}
    (h : (step a w).1 = .accepted (.ready (some req))) :
    ∃ recv expectsNoBody, Polls true w.conn (.ready (some (req, recv, expectsNoBody)))
      (step a w).2.conn := by
  have ha := step_acts a w
  rw [h] at ha
  generalize (step a w).2 = w' at ha ⊢
  generalize ho : Obs.accepted (.ready (some req)) = o at ha
  cases ha with
  | accept hh hp =>
      cases ho
      exact ⟨_, _, hp⟩
  | noAccept hh hp hr =>
      rename_i r _
      cases r <;> cases ho
  | _ => cases ho

/-- **Nothing is accepted after a request that does not allow reuse**, whatever is done in between. -/
theorem closing_request_last (inner : Transport) (pre post : List Action) (a b : Action)
    {req : Request}
    (h : (step a (Runs.after step pre (handshake inner))).1 = .accepted (.ready (some req)))
    (hno : allowReuse req.headers req.version = false) (next : Request) :
    (step b (Runs.after step (pre ++ a :: post) (handshake inner))).1 ≠
      .accepted (.ready (some next)) := by
  have hw := sane_after inner pre
  rw [Runs.after, run_append]
  generalize hs : Runs.after step pre (handshake inner) = w at h hw
  obtain ⟨recv, expectsNoBody, hp⟩ := accepted_polls h
  obtain ⟨-, -, ⟨c₁, heq⟩, -⟩ := hp.post hw.sound
  have hstate : (step a w).2.conn.state = .sendRes (.new req) := congrArg Conn.state heq
  have hlast : OnLast (step a w).2.conn := by
    rw [OnLast, hstate]
    exact hno
  have hrun := run_invariant (I := fun w => World.Sane w ∧ OnLast w.conn)
    (fun _ a hI _ => ⟨hI.1.step a, onLast_step hI.1.sound hI.2 a⟩) (along_true post (step a w).2)
    ⟨hw.step a, hlast⟩
  intro hb
  obtain ⟨recv', e', hp'⟩ := accepted_polls hb
  exact hp'.no_request hrun.1.sound hrun.2 _ rfl

end Server

omit [VecAlloc] [Crates] in
/-- A `close` that is not misread is obeyed. -/
theorem allowReuse_of_close {headers : HeaderMap} {version : Version}
    (hc : close ∈ connectionOptions headers) (hm : ¬ Misread headers version) :
    allowReuse headers version = false :=
  ((honours_iff headers version).mpr hm).close hc

/-- **`allow_reuse` honours the options** of the `connection` fields exactly where it does not misread
them.  Where it does not, nothing is accepted after a request that announces a close, and the client
goes on to no other request after a response that does. -/
theorem allow_reuse_honours :
    (∀ headers version,
      Honours headers version (allowReuse headers version) ↔ ¬ Misread headers version) ∧
    (∀ inner pre post a b req next,
      (Server.step a (after Server.step pre (Server.handshake inner))).1 =
        .accepted (.ready (some req)) →
      close ∈ connectionOptions req.headers → ¬ Misread req.headers req.version →
      (Server.step b (after Server.step (pre ++ a :: post) (Server.handshake inner))).1 ≠
        .accepted (.ready (some next))) ∧
    (∀ inner as, ∀ x ∈ (after Client.step as (Client.handshake inner)).conn.left,
      ¬ Misread x.2.2.headers x.2.2.version → close ∉ connectionOptions x.2.2.headers) := by
  refine ⟨honours_iff, ?_, ?_⟩
  · intro inner pre post a b req next h hc hm
    exact Server.closing_request_last inner pre post a b h (allowReuse_of_close hc hm) next
  · intro inner as x hx hm hc
    have hu := ((Client.traced_after inner as).left x hx).response
    rw [allowReuse_of_close hc hm] at hu
    cases hu

/-- `Connection: Close`, in the case it is often written in. -/
def closeInTitleCase : HeaderMap := [(ascii "connection", ascii "Close")]

def titleCaseHead : Bytes := ascii "GET / HTTP/1.1\r\nConnection: Close\r\n\r\n"

/-- The request with that head. -/
def titleCaseRequest : Request :=
  ⟨.get, ⟨none, none, none, some (ascii "/")⟩, .http11, closeInTitleCase⟩

@[reducible] def titleCaseCrates : Crates :=
  .table [(titleCaseHead, ⟨some (ascii "GET"), some (ascii "/"), some 1, closeInTitleCase⟩)] []

/-- The first of two such requests is answered. -/
def answerTitleCase : Server.World :=
  after Server.step [.accept 0, .respond ⟨204, .http11, []⟩ false, .drive 0, .dropRecv, .dropSend]
    (Server.handshake ⟨[.data (titleCaseHead ++ titleCaseHead)], true, [], [], 0⟩)

omit [VecAlloc] [Crates] in
theorem titleCase_accepted :
    letI := VecAlloc.amortized
    letI := titleCaseCrates
    (Server.step (.accept 0) answerTitleCase).1 =
      .accepted (.ready (some titleCaseRequest)) := by decide +kernel

omit [VecAlloc] [Crates] in
/-- **The connection is used again** after a request with `Connection: Close`: `allow_reuse` allows it,
and the server accepts another. -/
theorem title_case_reused :
    letI := VecAlloc.amortized
    letI := titleCaseCrates
    close ∈ connectionOptions closeInTitleCase ∧
      ¬ Honours closeInTitleCase .http11 (allowReuse closeInTitleCase .http11) ∧
      (Server.step (.accept 0) answerTitleCase).1 = .accepted (.ready (some titleCaseRequest)) := by
  have hclose : close ∈ connectionOptions closeInTitleCase := by decide
  exact ⟨hclose, fun h => absurd (h.close hclose) (by decide), titleCase_accepted⟩

end HreqH1
