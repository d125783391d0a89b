import HreqH1.Client.Moves
import HreqH1.Framing.Fields
import HreqH1.Model.Server

/-!
# Framing — Responses

The two decisions on the body of a response: `send_response` makes one when the response is sent, by
the method of the request, the status and the header fields, and `poll_response` makes one when it is
received.

They agree on every response but one kind (`framing_agrees_iff`): where neither method nor status rule
out a body and no header field announces one, the server sends none, and the client reads to the end
of a connection the server keeps open.
-/

namespace HreqH1

def LimitWrite.framing : LimitWrite → Framing
  | .chunkedEncoder => .chunked
  | .contentLength v => .contentLength v.limit
  | .noBody => .noBody

/-- How the body is sent that the stream takes. -/
def SendStream.framing (s : SendStream) : Framing := if s.ended then .noBody else s.limit.framing

/-- How the body is received that `poll_response` has found. -/
def Client.Bidirect.framing (h : Client.Bidirect) : Framing :=
  match h.holder with
  | some (_, limit) => limit.framing
  | none => .noBody

/-- A server that keeps the connection open after the response `res` to `req`, and a client that
receives it, frame the body alike, and not by the end of the connection. -/
def FramingAgrees (req : Request) (res : Response) : Prop :=
  ∀ (w : Server.World) (h : Client.Bidirect) (i : Nat),
    w.conn.res.receivers ≠ 0 → h.handle.req.method = req.method →
      (Server.Bidirect.new req).requestAllowsReuse = true →
      ∃ stream, (Server.respond res false (req.method == .head) w).2.send = some stream ∧
        (h.answered i res).framing = stream.framing ∧ (h.answered i res).framing ≠ .readToEnd

/-- Method and status leave a body to the header fields, on both sides. -/
def BodyByStatus (method : Method) (status : Nat) : Prop :=
  method ≠ .head ∧ isInformational status = false ∧ status ≠ 204 ∧ status ≠ 304 ∧
    isRedirection status = false

instance (method : Method) (status : Nat) : Decidable (BodyByStatus method status) :=
  inferInstanceAs (Decidable (_ ∧ _))

section Decisions
variable {req : Request} {res : Response} {w : Server.World} {h : Client.Bidirect} {i : Nat}

theorem respond_send (noBody expectsNoBody : Bool) (hw : w.conn.res.receivers ≠ 0) :
    (Server.respond res noBody expectsNoBody w).2.send =
      some ⟨LimitWrite.fromHeaders res.headers, noBody || expectsNoBody ||
        (LimitWrite.fromHeaders res.headers).isNoBody || isInformational res.status ||
        res.status == 204 || res.status == 304, true⟩ := by
  rw [Server.respond]
  dsimp only
  rw [if_neg hw]

theorem answered_framing (hm : h.handle.req.method = req.method) :
    (h.answered i res).framing =
      if Client.isNoBody (LimitRead.fromHeaders res.headers true) req.method res then .noBody
      else (LimitRead.fromHeaders res.headers true).framing := by
  rw [← hm, Client.Bidirect.framing, Client.Bidirect.answered]
  cases hb : Client.isNoBody (LimitRead.fromHeaders res.headers true) h.handle.req.method res with
  | true => simp only [if_true]
  | false => simp only [Bool.false_eq_true, if_false]

/-- A body the header fields announce, on both sides. -/
theorem limits_of_indicated (hi : headersIndicateBody res.headers = true) :
    (LimitRead.fromHeaders res.headers true).framing = (LimitWrite.fromHeaders res.headers).framing ∧
      (LimitRead.fromHeaders res.headers true).isNoBody =
        (LimitWrite.fromHeaders res.headers).isNoBody ∧
      (LimitRead.fromHeaders res.headers true).framing ≠ .readToEnd := by
  rw [LimitRead.fromHeaders, LimitWrite.fromHeaders]
  cases hc : isChunked res.headers with
  | true => exact ⟨rfl, rfl, fun h => by cases h⟩
  | false =>
      rw [headersIndicateBody, hc, Bool.false_or, Option.isSome_iff_exists] at hi
      obtain ⟨n, hn⟩ := hi
      rw [hn]
      exact ⟨rfl, rfl, fun h => by cases h⟩

/-- And one they do not. -/
theorem limits_of_not_indicated (hi : headersIndicateBody res.headers = false) :
    LimitRead.fromHeaders res.headers true = .readToEnd ⟨false⟩ ∧
      LimitWrite.fromHeaders res.headers = .noBody := by
  rw [headersIndicateBody, Bool.or_eq_false_iff, Option.isSome_eq_false_iff,
    Option.isNone_iff_eq_none] at hi
  rw [LimitRead.fromHeaders, LimitWrite.fromHeaders, hi.1, hi.2]
  exact ⟨rfl, rfl⟩

/-- The client's decision, where the header fields announce a body. -/
theorem isNoBody_of_indicated (hi : headersIndicateBody res.headers = true) (method : Method) :
    Client.isNoBody (LimitRead.fromHeaders res.headers true) method res =
      (false || method == .head || (LimitWrite.fromHeaders res.headers).isNoBody ||
        isInformational res.status || res.status == 204 || res.status == 304) := by
  rw [Client.isNoBody, hi, (limits_of_indicated hi).2.1, Bool.not_true, Bool.and_false,
    Bool.or_false, Bool.false_or, Bool.or_comm (LimitWrite.isNoBody _)]

/-- And where they do not. -/
theorem isNoBody_of_not_indicated (hi : headersIndicateBody res.headers = false) (method : Method) :
    Client.isNoBody (LimitRead.fromHeaders res.headers true) method res = true ↔
      ¬ BodyByStatus method res.status := by
  rw [Client.isNoBody, hi, (limits_of_not_indicated hi).1, BodyByStatus]
  simp only [LimitRead.isNoBody, Bool.false_or, Bool.not_false, Bool.and_true, Bool.or_eq_true,
    beq_iff_eq]
  rw [← Bool.not_eq_true (isInformational _), ← Bool.not_eq_true (isRedirection _)]
  tauto

/-- The client reads to the end what the server never sends. -/
theorem not_framingAgrees (hreuse : (Server.Bidirect.new req).requestAllowsReuse = true)
    (hi : headersIndicateBody res.headers = false) (hst : BodyByStatus req.method res.status) :
    ¬ FramingAgrees req res := by
  intro h
  have hno : ¬ Client.isNoBody (LimitRead.fromHeaders res.headers true) req.method res = true :=
    fun hb => (isNoBody_of_not_indicated hi req.method).mp hb hst
  obtain ⟨stream, -, -, hne⟩ := h (Server.handshake ⟨[], true, [], [], 0⟩)
    ⟨⟨req, none, none⟩, false, none⟩ 0 (by decide) rfl hreuse
  rw [answered_framing (rfl : _ = req.method), if_neg hno, (limits_of_not_indicated hi).1] at hne
  exact hne rfl

end Decisions

/-- **Server and client agree on the framing** of exactly the responses that announce their body, or
have none by method or status: where the server does not close the connection anyway. -/
theorem framing_agrees_iff (req : Request) (res : Response) :
    FramingAgrees req res ↔
      (Server.Bidirect.new req).requestAllowsReuse = false ∨ headersIndicateBody res.headers = true ∨
        ¬ BodyByStatus req.method res.status := by
  constructor
  · intro h
    by_contra hn
    rw [not_or, not_or, Bool.not_eq_false, Bool.not_eq_true, Classical.not_not] at hn
    exact not_framingAgrees hn.1 hn.2.1 hn.2.2 h
  · intro h w c i hw hm hreuse
    refine ⟨_, respond_send false (req.method == .head) hw, ?_⟩
    rw [answered_framing hm, SendStream.framing]
    dsimp only
    cases hi : headersIndicateBody res.headers with
    | true =>
        rw [isNoBody_of_indicated hi]
        obtain ⟨hl, -, hne⟩ := limits_of_indicated hi
        split
        · exact ⟨rfl, by simp⟩
        · exact ⟨hl, hne⟩
    | false =>
        rcases h with h | h | h
        · rw [hreuse] at h
          cases h
        · rw [hi] at h
          cases h
        · have hb := (isNoBody_of_not_indicated hi req.method).mpr h
          rw [if_pos hb, (limits_of_not_indicated hi).2]
          refine ⟨?_, by simp⟩
          split <;> rfl

/-- **The client waits for the end of a connection that stays open**: `GET` is answered with 200 and
no header fields. -/
theorem framing_disagrees :
    ¬ FramingAgrees ⟨.get, ⟨none, none, none, some (ascii "/")⟩, .http11, []⟩ ⟨200, .http11, []⟩ :=
  not_framingAgrees (by decide) (by decide) (by decide)

end HreqH1
