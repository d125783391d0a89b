import HreqH1.Link.Bodies
import HreqH1.Server.Answers

/-!
# Link — what the server is given

`suppliesFor as w`: the calls of `send_data` in a run of the server that are accepted, for the response
of each request that is handed out.  `Supplying` says that the items of an exchange are those of its
calls, as `Carries` has it; every step keeps it, and so does a run (`supplying_after`).
-/

namespace HreqH1.Link
open PollM Runs SendStream

/-- What has been given for the body of a response. -/
structure Supplied (x : Server.Exchange) (gave : List (Bytes × Bool)) : Prop where
  short : ∀ y ∈ gave, y.1.length < 16 ^ 10
  carries : ∀ res, x.res = some res → x.bodiless = false → Carries (isChunked res.headers) gave x.items
  bodiless : x.bodiless = true → ∀ y ∈ gave, y.1 = []

/-- The stream of a response. -/
structure Streams (x : Server.Exchange) (gave : List (Bytes × Bool)) (s : SendStream) : Prop where
  gives : ∀ res, x.res = some res → x.bodiless = false → Gives (isChunked res.headers) gave s
  stopped : x.bodiless = true → s.ended = true

/-- The data of a call is shorter than `16 ^ 10` bytes. -/
def ShortPush : Server.Action → Prop
  | .pushData _ _ bs _ => bs.length < 16 ^ 10
  | _ => True

/-- What a step gives for the bodies of responses, of which the last comes first. -/
def noteSupply (gs : List (List (Bytes × Bool))) (a : Server.Action) (o : Server.Obs)
    (_ : Server.World) : List (List (Bytes × Bool)) :=
  match a, o with
  | _, .accepted (.ready (some _)) => [] :: gs
  | _, .responded (.ok _) => gs.modifyHead fun _ => []
  | .pushData _ _ bs fin, .pushed r => gs.modifyHead fun gave => gaveAfter gave bs fin r
  | _, _ => gs

/-- The items of the exchanges are those of what has been given. -/
structure Supplying [Crates] (xs : List Server.Exchange) (gs : List (List (Bytes × Bool)))
    (w : Server.World) : Prop where
  answering : Server.Answering xs w
  each : List.Forall₂ Supplied xs gs
  stream : ∀ s, w.send = some s → ∃ x xs' gave gs', xs = x :: xs' ∧ gs = gave :: gs' ∧
    x.res.isSome = true ∧ Streams x gave s

/-! ### Steps -/

section Steps
variable {x : Server.Exchange} {xs : List Server.Exchange} {gave : List (Bytes × Bool)}
  {gs : List (List (Bytes × Bool))} {w w' : Server.World} {a : Server.Action} {o : Server.Obs}
  {req : Request} {res : Response} {noBody : Bool}

/-- A request is handed out. -/
theorem supplied_new (req : Request) : Supplied ⟨req, none, false, []⟩ [] where
  short := fun y hy => by cases hy
  carries := fun res h => by cases h
  bodiless := fun _ y hy => by cases hy

/-- A response is given. -/
theorem supplied_respond : Supplied ⟨req, some res, noBody, []⟩ [] where
  short := fun y hy => by cases hy
  carries := fun _ _ _ => carries_nil
  bodiless := fun _ y hy => by cases hy

/-- And its stream. -/
theorem streams_respond {s : SendStream} (hl : s.limit = LimitWrite.fromHeaders res.headers)
    (he : s.ended = Server.Exchange.bodiless ⟨req, some res, noBody, []⟩) :
    Streams ⟨req, some res, noBody, []⟩ [] s where
  stopped := fun hb => he.trans hb
  gives := by
    rintro _ ⟨⟩ hb
    refine ⟨?_, fun hend => ?_⟩
    · have hno : (LimitWrite.fromHeaders res.headers).isNoBody = false := by
        cases hno : (LimitWrite.fromHeaders res.headers).isNoBody with
        | false => rfl
        | true => rw [Server.bodiless_of_noBody rfl hno] at hb; cases hb
      rw [hl]
      exact limit_kind hno
    · rw [he, hb] at hend
      cases hend

variable [VecAlloc]

/-- A call for the body. -/
theorem Supplied.call {s s' : SendStream} {b b' : Chan (Bytes × Bool)} {cx : Waker} {bs : Bytes}
    {fin owned : Bool} {r : Outcome Error Unit} (h : Supplied x gave) (hs : Streams x gave s)
    (hx : x.res.isSome = true) (hitems : x.items = b.sent) (hdead : b.ended = true → b.receivers = 0)
    (hlt : bs.length < 16 ^ 10)
    (hp : pollSendData cx (dataOf owned bs) fin (s, b) = (r, (s', b'))) :
    Supplied { x with items := b'.sent } (gaveAfter gave bs fin r) ∧
      Streams { x with items := b'.sent } (gaveAfter gave bs fin r) s' := by
  have hshort : ∀ y ∈ gaveAfter gave bs fin r, y.1.length < 16 ^ 10 := short_gaveAfter h.short hlt
  cases hb : x.bodiless with
  | true =>
      obtain ⟨hnil, rfl, rfl⟩ := call_stopped (hs.stopped hb) (h.bodiless hb) hp
      rw [← hitems]
      refine ⟨⟨hshort, fun _ _ hne => ?_, fun _ => hnil⟩, ⟨fun _ _ hne => ?_, hs.stopped⟩⟩
      · cases hb.symm.trans hne
      · cases hb.symm.trans hne
  | false =>
      obtain ⟨res, hres⟩ := Option.isSome_iff_exists.mp hx
      obtain ⟨hg, hl⟩ := (hs.gives res hres hb).call ⟨hitems ▸ h.carries res hres hb, hdead⟩ hlt hp
      refine ⟨⟨hshort, fun res' hres' _ => ?_, fun hne => ?_⟩, ⟨fun res' hres' _ => ?_, fun hne => ?_⟩⟩
      · obtain rfl := Option.some.inj (hres.symm.trans hres')
        exact hl.carries
      · cases hb.symm.trans hne
      · obtain rfl := Option.some.inj (hres.symm.trans hres')
        exact hg
      · cases hb.symm.trans hne

variable [Crates]

theorem supplying_step (h : Supplying xs gs w) (hshort : ShortPush a) :
    Supplying (Server.note xs a (Server.step a w).1 (Server.step a w).2)
      (noteSupply gs a (Server.step a w).1 (Server.step a w).2) (Server.step a w).2 := by
  have hans := Server.answering_step h.answering a
  have hend : ∀ {req : Request} {res noBody s}, a = .respond res noBody →
      w.respond = some (req.method == .head) → w.conn.res.receivers ≠ 0 →
      (Server.step a w).2.send = some s →
        s.ended = Server.Exchange.bodiless ⟨req, some res, noBody, []⟩ := by
    rintro req res noBody s rfl hr hc hs
    exact Server.respond_ended hr hc hs
  have ha := Server.step_acts a w
  generalize (Server.step a w).1 = o at ha hans
  generalize (Server.step a w).2 = w' at ha hans hend ⊢
  have hquiet : Server.note xs a o w' = xs → noteSupply gs a o w' = gs →
      (∀ s, w'.send = some s → w.send = some s) →
      Supplying (Server.note xs a o w') (noteSupply gs a o w') w' := by
    intro hx hg hs
    rw [hx] at hans ⊢
    rw [hg]
    exact ⟨hans, h.each, fun s hs' => h.stream s (hs s hs')⟩
  cases ha with
  | accept hh hp =>
      refine ⟨hans, .cons (supplied_new _) h.each, fun s hs => ?_⟩
      rw [Server.World.held, show w.send = some s from hs, Option.isSome_some, Bool.or_true] at hh
      cases hh
  | @noAccept cx r c hh hp hr => exact hquiet (by cases r <;> rfl) (by cases r <;> rfl) fun _ => id
  | @respond res noBody expectsNoBody ended limit hr hc hl =>
      obtain ⟨x, xs', rfl, -, hexp⟩ := h.answering.respond _ hr
      obtain ⟨gave, gs', -, hrest, rfl⟩ := List.forall₂_cons_left_iff.mp h.each
      refine ⟨hans, .cons supplied_respond hrest, ?_⟩
      rintro s ⟨⟩
      exact ⟨_, xs', [], gs', rfl, rfl, rfl, streams_respond hl (hend rfl (hexp ▸ hr) hc rfl)⟩
  | @pushData owned cx bs fin send send' r rb hs hp =>
      obtain ⟨x, xs', gave, gs', rfl, rfl, hx, hst⟩ := h.stream _ hs
      obtain ⟨hsup, hrest⟩ := List.forall₂_cons.mp h.each
      obtain ⟨done, hb⟩ := h.answering.books
      have hdead : w.conn.resBody.ended = true → w.conn.resBody.receivers = 0 := fun he => by
        by_contra h0
        cases (h.answering.sane.wired.resBody.alive h0).symm.trans he
      obtain ⟨hsup', hst'⟩ := hsup.call hst hx (hb.items x rfl hx) hdead hshort hp
      refine ⟨hans, .cons hsup' hrest, ?_⟩
      rintro s ⟨⟩
      exact ⟨_, xs', _, gs', rfl, rfl, hx, hst'⟩
  | dropSend hs => exact hquiet rfl rfl fun _ he => (by cases he)
  | _ => exact hquiet rfl rfl fun _ => id

/-- What a step adds to both records. -/
def noteBoth (r : List Server.Exchange × List (List (Bytes × Bool))) (a : Server.Action)
    (o : Server.Obs) (w : Server.World) : List Server.Exchange × List (List (Bytes × Bool)) :=
  (Server.note r.1 a o w, noteSupply r.2 a o w)

/-- What has been given in a run, for each response. -/
def suppliesFor (as : List Server.Action) (w : Server.World) : List (List (Bytes × Bool)) :=
  (record Server.step noteSupply as [] w).reverse

/-- **What the exchanges hold** is what has been given. -/
theorem supplying_after {inner : Transport} {as : List Server.Action} (h0 : inner.written = [])
    (htx : TxClean inner.tx) (hshort : ∀ a ∈ as, ShortPush a) :
    Supplying (record Server.step Server.note as [] (Server.handshake inner))
      (record Server.step noteSupply as [] (Server.handshake inner))
      (Runs.after Server.step as (Server.handshake inner)) := by
  have hstep : ∀ (r : List Server.Exchange × List (List (Bytes × Bool))) (w : Server.World)
      (a : Server.Action), Supplying r.1 r.2 w → ShortPush a →
      Supplying (noteBoth r a (Server.step a w).1 (Server.step a w).2).1
        (noteBoth r a (Server.step a w).1 (Server.step a w).2).2 (Server.step a w).2 :=
    fun _ _ _ h hs => supplying_step h hs
  have hinit : Supplying [] [] (Server.handshake inner) :=
    ⟨Server.answering_handshake h0 htx, .nil, fun _ hs => by cases hs⟩
  have h := run_record (I := fun r w => Supplying r.1 r.2 w) hstep (along_of_forall hshort _)
    (r := ([], [])) hinit
  have hboth : record Server.step noteBoth as ([], []) (Server.handshake inner) = _ := record_prod
  rw [hboth] at h
  exact h

end Steps

end HreqH1.Link
