import HreqH1.Server.Accepting
import HreqH1.Server.Flush

/-!
# Server — answers

What the codec writes, against what the user gives it.  An `Exchange` is a request that is handed out,
with the response to it and what has been put on the channel of the response's body; `Said` is a
response that the codec has taken, with the items it has taken of the body.

`Stage` says how far the codec is: each request is answered to the end (`Completes`) before the next is
received, and of the answer at hand a front is said (`Answers`).  `Books` has that, and that the bytes
given to the writer are those of what is said.  The codec keeps it where the transport's answers to
writes do not fail, and so does the user.

`answers_written` is that of every run.
-/

namespace HreqH1.Server
open PollM BufIo Runs

/-- A request that is handed out, and what the user gives for it: the response, by `noBody` one
without a body, and the items of the body. -/
structure Exchange where
  req : Request
  res : Option Response
  noBody : Bool
  items : List (Bytes × Bool)

/-- There is no body to the response. -/
def Exchange.bodiless (x : Exchange) : Bool :=
  match x.res with
  | none => false
  | some res => x.noBody || x.req.method == .head || (LimitWrite.fromHeaders res.headers).isNoBody ||
      isInformational res.status || res.status == 204 || res.status == 304

/-- A response that has been taken, and the items of its body that have. -/
structure Said where
  res : Response
  items : List (Bytes × Bool)

variable [Crates]

/-- The head `write_http1x_res` makes of a response. -/
def headBytes (res : Response) : Bytes :=
  match resHead res with
  | .ready head => head
  | _ => []

/-- The bytes the codec writes for it. -/
def Said.bytes (y : Said) : Bytes := headBytes y.res ++ y.items.flatMap Prod.fst

/-- One more item. -/
def Said.add (y : Said) (x : Bytes × Bool) : Said := { y with items := y.items ++ [x] }

/-- What a step adds to the exchanges, of which the last comes first. -/
def note (xs : List Exchange) (a : Action) (o : Obs) (w : World) : List Exchange :=
  match o with
  | .accepted (.ready (some req)) => ⟨req, none, false, []⟩ :: xs
  | .responded (.ok _) =>
      match a with
      | .respond res noBody =>
          xs.modifyHead fun x => { x with res := some res, noBody := noBody, items := [] }
      | _ => xs
  | .pushed _ => xs.modifyHead fun x => { x with items := w.conn.resBody.sent }
  | _ => xs

/-- What is said is a front of the answer. -/
structure Answers (x : Exchange) (y : Said) : Prop where
  res : x.res = some y.res
  head : ∃ head, resHead y.res = .ready head
  items : y.items <+: x.items

/-- What is said is the answer, and there is nothing to its body, or the last item ends it. -/
structure Completes (x : Exchange) (y : Said) : Prop where
  answers : Answers x y
  whole : y.items = x.items
  ends : x.bodiless = true ∧ y.items = [] ∨ y.items.getLast?.any Prod.snd = true

abbrev Completed : List Exchange → List Said → Prop := List.Forall₂ Completes

/-- The response is still to come, or is on its channel, with all of its body to be taken. -/
def Offered (x : Exchange) (c : Conn) : Prop :=
  c.res.queue = [] ∨ ∃ res, x.res = some res ∧ c.res.queue = [(res, x.bodiless)] ∧
    c.resBody.queue = c.resBody.sent

/-- The response is taken, and nothing of its body. -/
structure Begun (x : Exchange) (y : Said) (h : Bidirect) (c : Conn) : Prop where
  answers : Answers x y
  items : y.items = []
  holder : h.holder = some (x.bodiless, LimitWrite.fromHeaders y.res.headers)
  queue : c.resBody.queue = c.resBody.sent

/-- All is answered but the last, of which a front may be said. -/
def AllButLast (xs : List Exchange) (done : List Said) : Prop :=
  Completed xs done ∨ ∃ x xs', xs = x :: xs' ∧
    (Completed xs' done ∨ ∃ y ys, done = y :: ys ∧ Answers x y ∧ Completed xs' ys)

/-- How far the codec is with the answers. -/
def Stage (xs : List Exchange) (done : List Said) (c : Conn) : Prop :=
  match c.state with
  | .recvReq => Completed xs done
  | .sendRes h => ∃ x xs', xs = x :: xs' ∧
      (h.rxRes = true → Offered x c ∧ Completed xs' done) ∧
      (h.rxRes = false → ∃ y ys, done = y :: ys ∧ Begun x y h c ∧ Completed xs' ys)
  | .sendBody _ => ∃ x xs' y ys, xs = x :: xs' ∧ done = y :: ys ∧ Answers x y ∧
      y.items ++ c.resBody.queue = c.resBody.sent ∧ Completed xs' ys
  | .closed => AllButLast xs done

/-- The bytes of what is said, of which the last comes first. -/
def saidBytes (done : List Said) : Bytes := done.reverse.flatMap Said.bytes

/-- What has been given to the writer is what is said. -/
structure Books (xs : List Exchange) (done : List Said) (c : Conn) : Prop where
  given : c.io.given = saidBytes done
  stage : Stage xs done c
  items : ∀ x ∈ xs.head?, x.res.isSome = true → x.items = c.resBody.sent
  empty : ∀ x ∈ xs.head?, x.bodiless = true → x.items = []
  bound : c.resBody.bound = 1
  room : c.resBody.queue.length ≤ 1

/-! ### What is said -/

section Said
variable {x : Exchange} {xs : List Exchange} {y : Said} {done ys : List Said}

theorem saidBytes_cons : saidBytes (y :: ys) = saidBytes ys ++ y.bytes := by
  rw [saidBytes, List.reverse_cons, List.flatMap_append, List.flatMap_singleton]
  rfl

theorem bytes_response {res : Response} {head : Bytes} (h : resHead res = .ready head) :
    (Said.mk res []).bytes = head := by
  rw [Said.bytes, headBytes, h]
  exact List.append_nil _

theorem bytes_add {item : Bytes × Bool} : (y.add item).bytes = y.bytes ++ item.1 := by
  rw [Said.bytes, Said.bytes, Said.add, List.flatMap_append, List.flatMap_singleton,
    List.append_assoc]

theorem saidBytes_add {item : Bytes × Bool} :
    saidBytes (y.add item :: ys) = saidBytes (y :: ys) ++ item.1 := by
  rw [saidBytes_cons, saidBytes_cons, bytes_add, List.append_assoc]

omit [Crates] in
theorem forall₂_get {α β : Type} {R : α → β → Prop} {l : List α} {m : List β} {a : α} {k : Nat}
    (h : List.Forall₂ R l m) (ha : l[k]? = some a) : ∃ b, m[k]? = some b ∧ R a b := by
  induction h generalizing k with
  | nil => cases ha
  | @cons a' b' l m hr hrest ih =>
      cases k with
      | zero =>
          obtain rfl := Option.some.inj ha
          exact ⟨b', rfl, hr⟩
      | succ k => exact ih ha

omit [Crates] in
theorem getElem?_reverse_cons {α : Type} {l : List α} {a b : α} {k : Nat}
    (h : l.reverse[k]? = some b) : (a :: l).reverse[k]? = some b := by
  rw [List.reverse_cons, List.getElem?_append_left (List.getElem?_eq_some_iff.mp h).1]
  exact h

omit [Crates] in
theorem reverse_getElem?_of_cons {α : Type} {l : List α} {a b : α} {k : Nat} (hk : k < l.length)
    (h : (a :: l).reverse[k]? = some b) : l.reverse[k]? = some b := by
  rw [List.reverse_cons, List.getElem?_append_left (by rw [List.length_reverse]; exact hk)] at h
  exact h

/-- The exchanges that are settled, and what is said of them, in their order. -/
theorem Completed.get {k : Nat} (h : Completed xs done) (hx : xs.reverse[k]? = some x) :
    ∃ y, done.reverse[k]? = some y ∧ Completes x y :=
  forall₂_get (List.forall₂_reverse_iff.mpr h) hx

/-- What is said is an answer to the exchange at its place. -/
theorem AllButLast.answers {k : Nat} (h : AllButLast xs done) (hy : done.reverse[k]? = some y) :
    ∃ x, xs.reverse[k]? = some x ∧ Answers x y := by
  have hget : ∀ {xs : List Exchange}, List.Forall₂ Answers xs done →
      ∃ x, xs.reverse[k]? = some x ∧ Answers x y := fun h =>
    forall₂_get (List.forall₂_reverse_iff.mpr h.flip) hy
  rcases h with hset | ⟨x, xs', rfl, hset | ⟨y', ys, rfl, ha, hset⟩⟩
  · exact hget (hset.imp fun _ _ h => h.answers)
  · obtain ⟨x', hx, ha⟩ := hget (hset.imp fun _ _ h => h.answers)
    exact ⟨x', getElem?_reverse_cons hx, ha⟩
  · exact hget (.cons ha (hset.imp fun _ _ h => h.answers))

/-- All but the last are settled. -/
theorem AllButLast.settled {k : Nat} (h : AllButLast xs done) (hx : xs.reverse[k]? = some x)
    (hk : k + 1 < xs.length) : ∃ y, done.reverse[k]? = some y ∧ Completes x y := by
  rcases h with hset | ⟨x', xs', rfl, hset | ⟨y', ys, rfl, -, hset⟩⟩
  · exact hset.get hx
  · exact hset.get (reverse_getElem?_of_cons (Nat.lt_of_succ_lt_succ hk) hx)
  · obtain ⟨y, hy, hs⟩ := hset.get (reverse_getElem?_of_cons (Nat.lt_of_succ_lt_succ hk) hx)
    exact ⟨y, getElem?_reverse_cons hy, hs⟩

end Said

/-! ### The channel of the body -/

/-- Items have been taken off the channel, or given up. -/
structure Empties {α : Type} (b b' : Chan α) : Prop where
  sent : b'.sent = b.sent
  bound : b'.bound = b.bound
  queue : b'.queue.length ≤ b.queue.length

section Empties
omit [Crates]
variable {α : Type} {b b' b'' : Chan α}

theorem Empties.refl (b : Chan α) : Empties b b := ⟨rfl, rfl, Nat.le_refl _⟩

theorem Empties.trans (h : Empties b b') (h' : Empties b' b'') : Empties b b'' :=
  ⟨h'.sent.trans h.sent, h'.bound.trans h.bound, Nat.le_trans h'.queue h.queue⟩

theorem empties_quiet (h : b.Quiet b') : Empties b b' :=
  ⟨h.sent, h.bound, Nat.le_of_eq (congrArg List.length h.queue)⟩

theorem empties_takes {x : α} (h : b.Takes x b') : Empties b b' :=
  ⟨h.sent, h.bound, by rw [h.queue]; exact Nat.le_succ _⟩

theorem empties_dropReceiver : Empties b b.dropReceiver := by
  refine ⟨Chan.dropReceiver_sent, ?_, ?_⟩
  · rw [Chan.dropReceiver]
    split <;> rfl
  · rw [Chan.dropReceiver]
    split
    · exact Nat.zero_le _
    · exact Nat.le_refl _

theorem empties_dropSender : Empties b b.dropSender := by
  refine ⟨Chan.sent_dropSender, ?_, Nat.le_of_eq (congrArg List.length Chan.queue_dropSender)⟩
  rw [Chan.dropSender]
  dsimp only
  split <;> rfl

end Empties

omit [Crates] in
/-- The shutdown only gives up items. -/
theorem empties_shut (c : Conn) : Empties c.resBody (shut c).resBody := by
  have hdrop : ∀ {p : Bool} {b : Chan (Bytes × Bool)},
      Empties b (if p then b.dropReceiver else b) := by
    intro p b
    split
    · exact empties_dropReceiver
    · exact .refl _
  rw [shut, Conn.dropState]
  cases c.state with
  | recvReq => exact .refl _
  | closed => exact .refl _
  | sendBody h => exact empties_dropReceiver
  | sendRes h =>
      dsimp only
      cases h.rxRes with
      | false => exact hdrop
      | true =>
          refine Empties.trans ?_ hdrop
          rw [if_pos rfl, Conn.dropRes]
          dsimp only
          split
          · exact .refl _
          · exact empties_dropReceiver

/-! ### What the codec keeps -/

section Codec
variable {x : Exchange} {xs xs' : List Exchange} {y : Said} {done done' : List Said} {c c' : Conn}

omit [Crates] in
theorem Offered.of_eq (h : Offered x c) (hr : c'.res.queue = c.res.queue)
    (hq : c'.resBody.queue = c.resBody.queue) (hs : c'.resBody.sent = c.resBody.sent) :
    Offered x c' := by
  rw [Offered, hr, hq, hs]
  exact h

theorem Begun.of_eq {h h' : Bidirect} (hb : Begun x y h c) (hh : h'.holder = h.holder)
    (hq : c'.resBody.queue = c.resBody.queue) (hs : c'.resBody.sent = c.resBody.sent) :
    Begun x y h' c' :=
  ⟨hb.answers, hb.items, hh.trans hb.holder, by rw [hq, hs]; exact hb.queue⟩

theorem Stage.allButLast (h : Stage xs done c) : AllButLast xs done := by
  rw [Stage] at h
  cases hs : c.state with
  | recvReq =>
      rw [hs] at h
      exact .inl h
  | closed =>
      rw [hs] at h
      exact h
  | sendBody b =>
      rw [hs] at h
      obtain ⟨x, xs', y, ys, rfl, rfl, ha, -, hset⟩ := h
      exact .inr ⟨x, xs', rfl, .inr ⟨y, ys, rfl, ha, hset⟩⟩
  | sendRes b =>
      rw [hs] at h
      obtain ⟨x, xs', rfl, htrue, hfalse⟩ := h
      cases hrx : b.rxRes with
      | true => exact .inr ⟨x, xs', rfl, .inl (htrue hrx).2⟩
      | false =>
          obtain ⟨y, ys, rfl, hb, hset⟩ := hfalse hrx
          exact .inr ⟨x, xs', rfl, .inr ⟨y, ys, rfl, hb.answers, hset⟩⟩

/-- The codec goes on, and takes nothing. -/
theorem Books.move (h : Books xs done c) (hg : c'.io.given = c.io.given)
    (hb : Empties c.resBody c'.resBody) (hs : Stage xs done c') : Books xs done c' where
  given := hg.trans h.given
  stage := hs
  items := fun x hx hr => (h.items x hx hr).trans hb.sent.symm
  empty := h.empty
  bound := hb.bound.trans h.bound
  room := Nat.le_trans hb.queue h.room

/-- All that `Stage` looks at is the same. -/
theorem Stage.of_eq (h : Stage xs done c) (hs : c'.state = c.state)
    (hr : c'.res.queue = c.res.queue) (hq : c'.resBody.queue = c.resBody.queue)
    (hsent : c'.resBody.sent = c.resBody.sent) : Stage xs done c' := by
  rw [Stage] at h ⊢
  rw [hs]
  cases hst : c.state with
  | recvReq =>
      rw [hst] at h
      exact h
  | closed =>
      rw [hst] at h
      exact h
  | sendBody b =>
      rw [hst] at h
      dsimp only
      rw [hq, hsent]
      exact h
  | sendRes b =>
      rw [hst] at h
      obtain ⟨x, xs', rfl, htrue, hfalse⟩ := h
      refine ⟨x, xs', rfl, fun hrx => ?_, fun hrx => ?_⟩
      · exact ⟨(htrue hrx).1.of_eq hr hq hsent, (htrue hrx).2⟩
      · obtain ⟨y, ys, rfl, hb, hset⟩ := hfalse hrx
        exact ⟨y, ys, rfl, hb.of_eq rfl hq hsent, hset⟩

/-- All that `Books` looks at is the same. -/
theorem Books.of_eq (h : Books xs done c) (hg : c'.io.given = c.io.given)
    (hs : c'.state = c.state) (hr : c'.res.queue = c.res.queue)
    (hb : c'.resBody = c.resBody) : Books xs done c' :=
  h.move hg (hb ▸ .refl _) (h.stage.of_eq hs hr (by rw [hb]) (by rw [hb]))

/-- The request's side of `SendRes` changes. -/
theorem Books.sendRes {h h' : Bidirect} (hb : Books xs done c) (hs : c.state = .sendRes h)
    (hs' : c'.state = .sendRes h') (hrx : h'.rxRes = h.rxRes) (hh : h'.holder = h.holder)
    (hg : c'.io.given = c.io.given) (hr : c'.res = c.res) (hbody : c'.resBody = c.resBody) :
    Books xs done c' := by
  refine hb.move hg (hbody ▸ .refl _) ?_
  have hst := hb.stage
  rw [Stage, hs] at hst
  rw [Stage, hs']
  obtain ⟨x, xs', rfl, htrue, hfalse⟩ := hst
  refine ⟨x, xs', rfl, fun ht => ?_, fun hf => ?_⟩
  · obtain ⟨ho, hset⟩ := htrue (hrx ▸ ht)
    exact ⟨ho.of_eq (by rw [hr]) (by rw [hbody]) (by rw [hbody]), hset⟩
  · obtain ⟨y, ys, rfl, hbeg, hset⟩ := hfalse (hrx ▸ hf)
    exact ⟨y, ys, rfl, hbeg.of_eq hh (by rw [hbody]) (by rw [hbody]), hset⟩

/-- An item of the body at hand is taken. -/
theorem Books.take {h : BodySender} {item : Bytes × Bool} {rx : Chan (Bytes × Bool)} {io : BufIo}
    (hb : Books xs done c) (hs : c.state = .sendBody h) (ht : c.resBody.Takes item rx)
    (hg : io.given = c.io.given ++ item.1) :
    ∃ x xs' y ys, xs = x :: xs' ∧ done = y :: ys ∧ io.given = saidBytes (y.add item :: ys) ∧
      Answers x (y.add item) ∧ (y.add item).items ++ rx.queue = rx.sent ∧ x.items = rx.sent ∧
      Completed xs' ys := by
  have hst := hb.stage
  rw [Stage, hs] at hst
  obtain ⟨x, xs', y, ys, rfl, rfl, ha, hq, hset⟩ := hst
  have hsent : (y.add item).items ++ rx.queue = rx.sent := by
    rw [ht.sent, ← hq, ht.queue, Said.add, List.append_assoc]
    rfl
  have hitems : x.items = rx.sent :=
    (hb.items x rfl (by rw [ha.res]; rfl)).trans ht.sent.symm
  refine ⟨x, xs', y, ys, rfl, rfl, ?_, ⟨ha.res, ha.head, ?_⟩, hsent, hitems, hset⟩
  · rw [hg, hb.given, saidBytes_add]
  · rw [hitems, ← hsent]
    exact List.prefix_append _ _

omit [Crates] in
theorem bodiless_of_noBody {res : Response} (hr : x.res = some res)
    (h : (LimitWrite.fromHeaders res.headers).isNoBody = true) : x.bodiless = true := by
  rw [Exchange.bodiless, hr]
  simp [h]

theorem Move.books (h : Move false c c') (hb : Books xs done c) : ∃ done', Books xs done' c' := by
  cases h with
  | write hw ht hi => exact ⟨done, hb.of_eq (hw.given.trans (List.append_nil _)) rfl rfl rfl⟩
  | read hr hp => exact ⟨done, hb.of_eq hr.given rfl rfl rfl⟩
  | wake hq => exact ⟨done, hb.of_eq rfl rfl hq.queue rfl⟩
  | request hs hf hp hwant => cases hwant
  | hangUp hs hr why =>
      refine ⟨done, hb.move hr.given (.refl _) ?_⟩
      have hst := hb.stage
      rw [Stage, hs] at hst
      exact .inl hst
  | @response h res fin rx io head hs hrx ht hh hw hio hi =>
      have hst := hb.stage
      rw [Stage, hs] at hst
      obtain ⟨x, xs', rfl, htrue, -⟩ := hst
      obtain ⟨ho, hset⟩ := htrue hrx
      rcases ho with ho | ⟨res', hres, hq, hsent⟩
      · cases ho.symm.trans ht.queue
      · obtain ⟨heq, hnil⟩ := List.cons.inj (hq.symm.trans ht.queue)
        obtain ⟨rfl, rfl⟩ := Prod.mk.inj heq
        have hbody : ∀ w : Conn, w.res.queue = [] → w.dropRes.resBody = w.resBody := by
          intro w hw
          rw [Conn.dropRes, hw]
          rfl
        refine ⟨⟨res', []⟩ :: done, ⟨?_, ?_, fun x' hx' hr => ?_, hb.empty, ?_, ?_⟩⟩
        · show io.given = _
          rw [hw.given, hb.given, saidBytes_cons, bytes_response hh]
        · refine ⟨x, xs', rfl, fun hf => (by cases hf), fun _ => ⟨⟨res', []⟩, done, rfl, ?_, hset⟩⟩
          refine ⟨⟨hres, ⟨head, hh⟩, List.nil_prefix⟩, rfl, rfl, ?_⟩
          rw [hbody _ hnil.symm]
          exact hsent
        · rw [hbody _ hnil.symm]
          exact hb.items x' hx' hr
        · rw [hbody _ hnil.symm]
          exact hb.bound
        · rw [hbody _ hnil.symm]
          exact hb.room
  | chunk hs hbt ho hn hl hr hc hp hu =>
      obtain ⟨front, hr⟩ := hr
      exact ⟨done, hb.sendRes hs rfl rfl rfl hr.given rfl rfl⟩
  | entire hs hbt ho he hl hne hr hu hp => exact ⟨done, hb.sendRes hs rfl rfl rfl hr.given rfl rfl⟩
  | @responded h fin limit hs hrx hbt hh hn =>
      refine ⟨done, hb.move rfl empties_dropReceiver ?_⟩
      have hst := hb.stage
      rw [Stage, hs] at hst
      obtain ⟨x, xs', rfl, -, hfalse⟩ := hst
      obtain ⟨y, ys, rfl, hbeg, hset⟩ := hfalse hrx
      have hnone : x.bodiless = true := by
        obtain ⟨rfl, rfl⟩ := Prod.mk.inj (Option.some.inj (hh.symm.trans hbeg.holder))
        rcases Bool.or_eq_true_iff.mp hn with hn | hn
        · exact hn
        · exact bodiless_of_noBody hbeg.answers.res hn
      have hcompletes : Completed (x :: xs') (y :: ys) :=
        .cons ⟨hbeg.answers, hbeg.items.trans (hb.empty x rfl hnone).symm, .inl ⟨hnone, hbeg.items⟩⟩
          hset
      rw [Stage]
      dsimp only
      rw [after]
      cases h.requestAllowsReuse with
      | true => exact hcompletes
      | false => exact .inl hcompletes
  | @toBody h fin limit hs hrx hbt hh hn =>
      refine ⟨done, hb.move rfl (.refl _) ?_⟩
      have hst := hb.stage
      rw [Stage, hs] at hst
      obtain ⟨x, xs', rfl, -, hfalse⟩ := hst
      obtain ⟨y, ys, rfl, hbeg, hset⟩ := hfalse hrx
      refine ⟨x, xs', y, ys, rfl, rfl, hbeg.answers, ?_, hset⟩
      rw [hbeg.items]
      exact hbeg.queue
  | @item h bs rx io hs ht hw hio =>
      obtain ⟨x, xs', y, ys, rfl, rfl, hg, ha, hq, -, hset⟩ := hb.take hs ht hw.given
      refine ⟨y.add (bs, false) :: ys, ⟨hg, ?_, fun x' hx' hr => ?_, hb.empty, ?_, ?_⟩⟩
      · rw [Stage]
        dsimp only
        rw [hs]
        exact ⟨x, xs', y.add (bs, false), ys, rfl, rfl, ha, hq, hset⟩
      · exact (hb.items x' hx' hr).trans ht.sent.symm
      · exact ht.bound.trans hb.bound
      · exact Nat.le_trans (empties_takes ht).queue hb.room
  | @lastItem h bs rx io hs ht hw hio hf =>
      obtain ⟨x, xs', y, ys, rfl, rfl, hg, ha, hq, hitems, hset⟩ := hb.take hs ht hw.given
      have he : Empties c.resBody rx.dropReceiver := (empties_takes ht).trans empties_dropReceiver
      refine ⟨y.add (bs, true) :: ys, ⟨hg, ?_, fun x' hx' hr => ?_, hb.empty, ?_, ?_⟩⟩
      · have hnil : rx.queue = [] := by
          have hroom := hb.room
          rw [ht.queue, List.length_cons] at hroom
          exact List.length_eq_zero_iff.mp (Nat.le_zero.mp (Nat.le_of_succ_le_succ hroom))
        have hwhole : (y.add (bs, true)).items = x.items := by
          rw [hnil, List.append_nil] at hq
          exact hq.trans hitems.symm
        have hcompletes : Completed (x :: xs') (y.add (bs, true) :: ys) :=
          .cons ⟨ha, hwhole, .inr (by rw [Said.add, List.getLast?_concat]; rfl)⟩ hset
        rw [Stage]
        dsimp only
        rw [after]
        cases h.requestAllowsReuse with
        | true => exact hcompletes
        | false => exact .inl hcompletes
      · exact (hb.items x' hx' hr).trans he.sent.symm
      · exact he.bound.trans hb.bound
      · exact Nat.le_trans he.queue hb.room

/-- A poll that is `Pending`, or that panics, has left the books in order. -/
theorem Stop.books {k : Halt IoError} (h : Stop k c c') (hk : ∀ e, k ≠ .fail e)
    (htx : TxClean c.io.inner.tx) (hb : Books xs done c) : ∃ done', Books xs done' c' := by
  cases h with
  | writePending hw ht hp hlt =>
      exact ⟨done, hb.of_eq (hw.given.trans (List.append_nil _)) rfl rfl rfl⟩
  | grow hs hr hg hm hn => exact ⟨done, hb.of_eq hr.given rfl rfl rfl⟩
  | headPending hs hr hbl hp hn => exact ⟨done, hb.of_eq hr.given rfl rfl rfl⟩
  | awaitResponse hs hrx hq hn => exact ⟨done, hb⟩
  | @responseCut k c h res fin rx io front hs hrx ht hw hio hkp why hm =>
      obtain rfl : front = [] := (why.resolve_right (not_not_intro htx)).1
      have hst := hb.stage
      rw [Stage, hs] at hst
      obtain ⟨x, xs', rfl, htrue, -⟩ := hst
      obtain ⟨ho, hset⟩ := htrue hrx
      refine ⟨done, hb.move (hw.given.trans (List.append_nil _)) (.refl _) ?_⟩
      refine ⟨x, xs', rfl, fun _ => ⟨.inl ?_, hset⟩, fun hf => (by cases hrx.symm.trans hf)⟩
      show rx.queue = []
      rcases ho with ho | ⟨res', -, hq, -⟩
      · cases ho.symm.trans ht.queue
      · exact (List.cons.inj (hq.symm.trans ht.queue)).2.symm
  | bodyFull hs hbt hq hr ho ha => exact ⟨done, hb.of_eq rfl rfl rfl rfl⟩
  | fillPending hs hbt ho hr hbl hp ha hu => exact ⟨done, hb.of_eq hr.given rfl rfl rfl⟩
  | limitPending hs hbt ho hn hl hr hw ha =>
      obtain ⟨front, hr⟩ := hr
      exact ⟨done, hb.sendRes hs rfl rfl rfl hr.given rfl rfl⟩
  | limitFailed hs hbt hn hl hr hkp why hm hp hu =>
      obtain ⟨front, hr⟩ := hr
      exact ⟨done, hb.sendRes hs rfl rfl rfl hr.given rfl rfl⟩
  | entireOverflow hs hbt hl hr hp hu => exact ⟨done, hb.of_eq hr.given rfl rfl rfl⟩
  | noHolder hs hrx hh => exact ⟨done, hb⟩
  | @awaitItem c h rx hs hr hq hn =>
      exact ⟨done, hb.move rfl (empties_quiet hr) (hb.stage.of_eq rfl rfl hr.queue hr.sent)⟩
  | @itemPending c h bs fin rx io hs ht hw hio hp hlt hf =>
      obtain ⟨x, xs', y, ys, rfl, rfl, hg, ha, hq, -, hset⟩ := hb.take hs ht hw.given
      refine ⟨y.add (bs, fin) :: ys, ⟨hg, ?_, fun x' hx' hr => ?_, hb.empty, ?_, ?_⟩⟩
      · rw [Stage]
        dsimp only
        rw [hs]
        exact ⟨x, xs', y.add (bs, fin), ys, rfl, rfl, ha, hq, hset⟩
      · exact (hb.items x' hx' hr).trans ht.sent.symm
      · exact ht.bound.trans hb.bound
      · exact Nat.le_trans (empties_takes ht).queue hb.room
  | writeFailed hw ht why => exact absurd rfl (hk _)
  | headMissing hs hr why hkd => exact absurd rfl (hk _)
  | headInvalid hs hf hp => exact absurd rfl (hk _)
  | noResponse hs hrx hr hq hn => exact absurd rfl (hk _)
  | fillFailed hs hbt hr hu => exact absurd rfl (hk _)
  | noItem hs hr hq hn => exact absurd rfl (hk _)
  | itemFailed hs ht hw hio why => exact absurd rfl (hk _)

/-- What a failure leaves: nothing more is said, and the codec shuts down. -/
theorem Stop.failed {e : IoError} (h : Stop (.fail e) c c') (htx : TxClean c.io.inner.tx)
    (hb : Books xs done c) : Books xs done (shut c') := by
  have hshut : ∀ {c' : Conn}, c'.io.given = c.io.given → Empties c.resBody c'.resBody →
      Books xs done (shut c') := fun hg he =>
    hb.move (by rw [io_shut]; exact hg) (he.trans (empties_shut _)) hb.stage.allButLast
  cases h with
  | writeFailed hw ht why => exact absurd htx why
  | headMissing hs hr why hkd => exact hshut hr.given (.refl _)
  | headInvalid hs hf hp => exact hshut hf.reads.given (.refl _)
  | noResponse hs hrx hr hq hn => exact hshut rfl (.refl _)
  | @responseCut _ _ h res fin rx io front hs hrx ht hw hio hkp why hm =>
      obtain rfl : front = [] := (why.resolve_right (not_not_intro htx)).1
      exact hshut (hw.given.trans (List.append_nil _)) (.refl _)
  | fillFailed hs hbt hr hu => exact hshut hr.given (.refl _)
  | limitFailed hs hbt hn hl hr hkp why hm hp hu =>
      obtain ⟨front, hr⟩ := hr
      exact hshut hr.given (.refl _)
  | noItem hs hr hq hn => exact hshut rfl (empties_quiet hr)
  | itemFailed hs ht hw hio why => exact absurd htx why

/-- The answers of the writer get fewer. -/
theorem Move.tx {want : Bool} (h : Move want c c') : c'.io.inner.tx <:+ c.io.inner.tx := by
  cases h with
  | write hw ht hi => exact hw.tx
  | read hr hp => exact hr.tx ▸ List.suffix_refl _
  | request hs hf hp hwant => exact hf.reads.tx ▸ List.suffix_refl _
  | hangUp hs hr why => exact hr.tx ▸ List.suffix_refl _
  | response hs hrx ht hh hw hio hi => exact hw.tx
  | chunk hs hb ho hn hl hr hc hp hu => obtain ⟨front, hr⟩ := hr; exact hr.tx ▸ List.suffix_refl _
  | entire hs hb ho he hl hne hr hu hp => exact hr.tx ▸ List.suffix_refl _
  | item hs ht hw hio => exact hw.tx
  | lastItem hs ht hw hio hf => exact hw.tx
  | _ => exact List.suffix_refl _

theorem Stop.tx {k : Halt IoError} (h : Stop k c c') : c'.io.inner.tx <:+ c.io.inner.tx := by
  cases h with
  | writePending hw ht hp hlt => exact hw.tx
  | writeFailed hw ht why => exact hw.tx
  | grow hs hr hg hm hn => exact hr.tx ▸ List.suffix_refl _
  | headPending hs hr hb hp hn => exact hr.tx ▸ List.suffix_refl _
  | headMissing hs hr why hk => exact hr.tx ▸ List.suffix_refl _
  | headInvalid hs hf hp => exact hf.reads.tx ▸ List.suffix_refl _
  | responseCut hs hrx ht hw hio hk why hm => exact hw.tx
  | fillPending hs hb ho hr hbl hp ha hu => exact hr.tx ▸ List.suffix_refl _
  | fillFailed hs hb hr hu => exact hr.tx ▸ List.suffix_refl _
  | limitPending hs hb ho hn hl hr hw ha => obtain ⟨front, hr⟩ := hr; exact hr.tx ▸ List.suffix_refl _
  | limitFailed hs hb hn hl hr hk why hm hp hu =>
      obtain ⟨front, hr⟩ := hr
      exact hr.tx ▸ List.suffix_refl _
  | entireOverflow hs hb hl hr hp hu => exact hr.tx ▸ List.suffix_refl _
  | itemPending hs ht hw hio hp hlt hf => exact hw.tx
  | itemFailed hs ht hw hio why => exact hw.tx
  | _ => exact List.suffix_refl _

/-- A poll of the codec that receives no request. -/
theorem ServerPost.books {r : Outcome IoError (Option Package)} (h : ServerPost false c r c')
    (htx : TxClean c.io.inner.tx) (hb : Books xs done c) :
    TxClean c'.io.inner.tx ∧ ∃ done', Books xs done' c' := by
  refine h.keeps_or_shut (I := fun c => TxClean c.io.inner.tx ∧ ∃ done, Books xs done c)
    (fun c c' hm hc => ?_) (fun k c c' hk hs hc => ?_) (fun e c c' hs hc => ?_) ⟨htx, done, hb⟩
  · obtain ⟨htx, done, hb⟩ := hc
    exact ⟨htx.suffix hm.tx, hm.books hb⟩
  · obtain ⟨htx, done, hb⟩ := hc
    exact ⟨htx.suffix hs.tx, hs.books hk htx hb⟩
  · obtain ⟨htx, done, hb⟩ := hc
    exact ⟨by rw [io_shut]; exact htx.suffix hs.tx, done, hs.failed htx hb⟩

theorem moves_books (hm : Moves false c c') (htx : TxClean c.io.inner.tx)
    (hb : Books xs done c) : TxClean c'.io.inner.tx ∧ ∃ done', Books xs done' c' :=
  moves_keep (I := fun c => TxClean c.io.inner.tx ∧ ∃ done, Books xs done c)
    (fun _ _ hm hc => ⟨hc.1.suffix hm.tx, by obtain ⟨-, done, hb⟩ := hc; exact hm.books hb⟩) hm
    ⟨htx, done, hb⟩

/-- A request is received once all before it is answered. -/
theorem Receives.books {p : Package} (h : Receives p c c') (htx : TxClean c.io.inner.tx)
    (hb : Books xs done c) :
    TxClean c'.io.inner.tx ∧ Books (⟨p.1, none, false, []⟩ :: xs) done c' := by
  obtain ⟨hs, -, io, head, eos, hf, hp, rfl⟩ := h
  have hst := hb.stage
  rw [Stage, hs] at hst
  refine ⟨htx.suffix (hf.reads.tx ▸ List.suffix_refl _), hf.reads.given.trans hb.given, ?_, ?_, ?_,
    hb.bound, hb.room⟩
  · exact ⟨_, xs, rfl, fun _ => ⟨.inl rfl, hst⟩, fun hrx => (by cases hrx)⟩
  · rintro x ⟨⟩ hr
    cases hr
  · rintro x ⟨⟩ hr
    cases hr

/-- The response is put on its channel. -/
theorem Books.respond {h : Bidirect} {res : Response} {noBody ended : Bool}
    (hb : Books (x :: xs') done c) (hx : x.res = none) (hs : c.state = .sendRes h)
    (hrx : h.rxRes = true) (he : c.res.ended = false)
    (hend : ended = Exchange.bodiless ⟨x.req, some res, noBody, []⟩) :
    Books (⟨x.req, some res, noBody, []⟩ :: xs') done
      { c with resBody := .new 1, res := (c.res.enqueue (res, ended)).dropSender } := by
  have hst := hb.stage
  rw [Stage, hs] at hst
  obtain ⟨x₁, xs₁, heq, htrue, -⟩ := hst
  obtain ⟨rfl, rfl⟩ := List.cons.inj heq
  obtain ⟨ho, hset⟩ := htrue hrx
  have hnil : c.res.queue = [] := by
    rcases ho with ho | ⟨res', hres, -⟩
    · exact ho
    · cases hx.symm.trans hres
  refine ⟨hb.given, ?_, ?_, ?_, rfl, Nat.zero_le _⟩
  · rw [Stage]
    dsimp only
    rw [hs]
    refine ⟨_, xs', rfl, fun _ => ⟨.inr ⟨res, rfl, ?_, rfl⟩, hset⟩, fun hf => ?_⟩
    · rw [Chan.queue_dropSender, Chan.queue_enqueue _ he, hnil, hend]
      rfl
    · cases hrx.symm.trans hf
  · rintro _ ⟨⟩ -
    rfl
  · rintro _ ⟨⟩ -
    rfl

/-- An item is put on the channel of the body. -/
theorem Books.push {item : Bytes × Bool} (hb : Books (x :: xs') done c) (hl : Linked c)
    (hx : x.res.isSome = true) (hbody : x.bodiless = false) (he : c.resBody.ended = false)
    (ho : c.resBody.Open) :
    Books ({ x with items := (c.resBody.enqueue item).sent } :: xs') done
      { c with resBody := c.resBody.enqueue item } := by
  have hsent := Chan.sent_enqueue item he
  have hqueue := Chan.queue_enqueue item he
  have hitems : x.items = c.resBody.sent := hb.items x rfl hx
  have hfront : ∀ {y : Said}, Answers x y →
      Answers { x with items := (c.resBody.enqueue item).sent } y := fun ha =>
    ⟨ha.res, ha.head, ha.items.trans (by rw [hitems, hsent]; exact List.prefix_append _ _)⟩
  have hst := hb.stage
  refine ⟨hb.given, ?_, ?_, ?_, (Chan.bound_enqueue item).trans hb.bound, ?_⟩
  · rw [Stage] at hst ⊢
    rw [Linked] at hl
    dsimp only
    cases hs : c.state with
    | recvReq => rw [hs] at hl; exact hl.elim
    | closed => rw [hs] at hl; exact hl.elim
    | sendBody b =>
        rw [hs] at hst
        obtain ⟨x₁, xs₁, y, ys, heq, rfl, ha, hq, hset⟩ := hst
        obtain ⟨rfl, rfl⟩ := List.cons.inj heq
        refine ⟨_, xs', y, ys, rfl, rfl, hfront ha, ?_, hset⟩
        rw [hqueue, hsent, ← List.append_assoc, hq]
    | sendRes b =>
        rw [hs] at hst
        obtain ⟨x₁, xs₁, heq, htrue, hfalse⟩ := hst
        obtain ⟨rfl, rfl⟩ := List.cons.inj heq
        refine ⟨_, xs', rfl, fun hrx => ?_, fun hrx => ?_⟩
        · obtain ⟨ho, hset⟩ := htrue hrx
          refine ⟨ho.imp id fun ho => ?_, hset⟩
          obtain ⟨res, hres, hq, hall⟩ := ho
          exact ⟨res, hres, hq, by rw [hqueue, hsent, hall]⟩
        · obtain ⟨y, ys, rfl, hbeg, hset⟩ := hfalse hrx
          exact ⟨y, ys, rfl, ⟨hfront hbeg.answers, hbeg.items, hbeg.holder,
            by rw [hqueue, hsent, hbeg.queue]⟩, hset⟩
  · rintro _ ⟨⟩ -
    rfl
  · rintro _ ⟨⟩ hnone
    cases hbody.symm.trans hnone
  · have hlt := ho.2.resolve_left (by rw [he]; exact Bool.false_ne_true)
    rw [hb.bound] at hlt
    rw [hqueue, List.length_append]
    exact hlt

end Codec

/-! ### The user -/

section User
variable [VecAlloc] {xs : List Exchange} {w w' : World} {a : Action} {o : Obs}

/-- The exchanges of a run, as the codec and the handles of the user stand. -/
structure Answering (xs : List Exchange) (w : World) : Prop where
  sane : w.Sane
  clean : TxClean w.conn.io.inner.tx
  books : ∃ done, Books xs done w.conn
  respond : ∀ e, w.respond = some e → ∃ x xs', xs = x :: xs' ∧ x.res = none ∧
    e = (x.req.method == .head)
  send : ∀ s, w.send = some s → ∃ x xs', xs = x :: xs' ∧ x.res.isSome = true ∧
    (x.bodiless = true → s.ended = true)

omit [VecAlloc] [Crates] in
theorem note_quiet (ha : ∀ req, o ≠ .accepted (.ready (some req))) (hr : o ≠ .responded (.ok ()))
    (hp : ∀ r, o ≠ .pushed r) : note xs a o w = xs := by
  unfold note
  split
  · next req => exact absurd rfl (ha req)
  · exact absurd rfl hr
  · next r => exact absurd rfl (hp r)
  · rfl

omit [VecAlloc] in
/-- Nothing is added to the exchanges. -/
theorem Answering.quiet (h : Answering xs w) (hsane : w'.Sane)
    (hb : TxClean w'.conn.io.inner.tx ∧ ∃ done, Books xs done w'.conn)
    (hr : ∀ e, w'.respond = some e → w.respond = some e)
    (hs : ∀ s, w'.send = some s → w.send = some s) (hn : note xs a o w' = xs) :
    Answering (note xs a o w') w' := by
  rw [hn]
  exact ⟨hsane, hb.1, hb.2, fun e he => h.respond e (hr e he), fun s hs' => h.send s (hs s hs')⟩

/-- The `SendStream` of a response without a body has ended. -/
theorem respond_ended {req : Request} {res : Response} {noBody : Bool} {s : SendStream}
    (hr : w.respond = some (req.method == .head)) (hc : w.conn.res.receivers ≠ 0)
    (hs : (step (.respond res noBody) w).2.send = some s) :
    s.ended = Exchange.bodiless ⟨req, some res, noBody, []⟩ := by
  rw [step, hr] at hs
  dsimp only at hs
  rw [respond, if_neg hc] at hs
  cases hs
  rfl

theorem answering_step (h : Answering xs w) (a : Action) :
    Answering (note xs a (step a w).1 (step a w).2) (step a w).2 := by
  have hio := h.sane.sound
  have hsane := h.sane.step a
  have hend : ∀ {req : Request} {res noBody s}, a = .respond res noBody →
      w.respond = some (req.method == .head) → w.conn.res.receivers ≠ 0 →
      (step a w).2.send = some s → s.ended = Exchange.bodiless ⟨req, some res, noBody, []⟩ := by
    rintro req res noBody s rfl hr hc hs
    exact respond_ended hr hc hs
  obtain ⟨done, hb⟩ := h.books
  have ha := step_acts a w
  generalize (step a w).1 = o at ha
  generalize (step a w).2 = w' at ha hsane hend ⊢
  cases ha with
  | idle => exact h.quiet hsane ⟨h.clean, done, hb⟩ (fun _ => id) (fun _ => id) rfl
  | held hh => exact h.quiet hsane ⟨h.clean, done, hb⟩ (fun _ => id) (fun _ => id) rfl
  | @accept cx req recv expectsNoBody c hh hp =>
      obtain ⟨c₁, hm, hrec⟩ : ∃ c₁, Moves false w.conn c₁ ∧ Receives _ c₁ c := hp.accepts hio
      obtain ⟨-, -, -, hexp, -⟩ := hp.post hio
      obtain ⟨htx₁, done₁, hb₁⟩ := moves_books hm h.clean hb
      obtain ⟨htx, hb'⟩ := hrec.books htx₁ hb₁
      refine ⟨hsane, htx, ⟨done₁, hb'⟩, ?_, fun s hs => ?_⟩
      · rintro e ⟨⟩
        exact ⟨_, xs, rfl, rfl, hexp⟩
      · rw [World.held, show w.send = some s from hs, Option.isSome_some, Bool.or_true] at hh
        cases hh
  | @noAccept cx r c hh hp hr =>
      refine h.quiet hsane (((hp.accepts hio).post hr).books h.clean hb) (fun _ => id) (fun _ => id) ?_
      refine note_quiet (fun req ho => ?_) (by simp) (by simp)
      cases r <;> cases ho
  | close hp =>
      exact h.quiet hsane ((hp.post hio).books h.clean hb) (fun _ => id) (fun _ => id) rfl
  | read hr hp hbd hd =>
      obtain ⟨htx, done', hb'⟩ := (hp.post hio).books h.clean hb
      exact h.quiet hsane ⟨htx, done', hb'.of_eq rfl rfl rfl rfl⟩ (fun _ => id) (fun _ => id) rfl
  | noRead hr hp ho hd =>
      exact h.quiet hsane ((hp.post hio).books h.clean hb) (fun _ => id) (fun _ => id) rfl
  | refused hr hc =>
      refine h.quiet hsane ⟨h.clean, done, ?_⟩ (fun _ he => (by cases he)) (fun _ => id) rfl
      exact hb.of_eq rfl rfl Chan.queue_dropSender rfl
  | @respond res noBody expectsNoBody ended limit hr hc hl =>
      obtain ⟨x, xs', rfl, hx, hexp⟩ := h.respond _ hr
      obtain ⟨b, hs, hrx⟩ := h.sane.wired.answers (by rw [hr]; rfl) hc
      have hbl : ended = Exchange.bodiless ⟨x.req, some res, noBody, []⟩ :=
        hend rfl (hexp ▸ hr) hc rfl
      refine ⟨hsane, h.clean, ⟨done, hb.respond hx hs hrx (h.sane.wired.res.alive hc) hbl⟩,
        fun e he => (by cases he), ?_⟩
      rintro s ⟨⟩
      exact ⟨_, xs', rfl, rfl, fun hn => hbl.trans hn⟩
  | @pushData owned cx bs fin send send' o rb hs hp =>
      obtain ⟨x, xs', rfl, hx, hstop⟩ := h.send _ hs
      have hitems : x.items = w.conn.resBody.sent := hb.items x rfl hx
      by_cases hse : send.ended = true
      · -- The stream has ended, and nothing is sent.
        obtain ⟨-, heq⟩ := Prod.mk.inj ((SendStream.pollSendData_ended hse).symm.trans hp)
        obtain ⟨rfl, rfl⟩ := Prod.mk.inj heq
        have hsame : note (x :: xs') (.pushData owned cx bs fin) (.pushed o)
            { w with conn := { w.conn with resBody := w.conn.resBody }, send := some send } =
            x :: xs' := by
          show { x with items := w.conn.resBody.sent } :: xs' = x :: xs'
          rw [← hitems]
        exact h.quiet hsane ⟨h.clean, done, hb⟩ (fun _ => id) (fun _ he => he ▸ hs) hsame
      · have hbody : x.bodiless = false := Bool.eq_false_iff.mpr fun hn => hse (hstop hn)
        refine ⟨hsane, h.clean, ⟨done, ?_⟩, fun e he => ?_, fun s he => ?_⟩
        · rcases wp_elim SendStream.pollSendData_sends hp with hq | ⟨-, ho, bs', heq⟩
          · have hsame : note (x :: xs') (.pushData owned cx bs fin) (.pushed o)
                { w with conn := { w.conn with resBody := rb }, send := some send' } = x :: xs' := by
              show { x with items := rb.sent } :: xs' = x :: xs'
              rw [hq.sent, ← hitems]
            rw [hsame]
            exact hb.move rfl (empties_quiet hq) (hb.stage.of_eq rfl rfl hq.queue hq.sent)
          · obtain rfl : rb = _ := heq
            refine hb.push (h.sane.wired.linked (.inr ⟨by rw [hs]; rfl, ho.1⟩)) hx hbody ?_ ho
            exact h.sane.wired.resBody.alive ho.1
        · obtain ⟨x₁, xs₁, heq, hnone, -⟩ := h.respond e he
          obtain ⟨rfl, -⟩ := List.cons.inj heq
          rw [hnone] at hx
          cases hx
        · exact ⟨_, xs', rfl, hx, fun hn => (by cases hbody.symm.trans hn)⟩
  | drive hp hd =>
      refine h.quiet hsane ((hp.post hio).books h.clean hb) (fun _ => id) (fun _ => id) rfl
  | dropRecv hr =>
      exact h.quiet hsane ⟨h.clean, done, hb.of_eq rfl rfl rfl rfl⟩ (fun _ => id) (fun _ => id) rfl
  | dropRespond hr =>
      refine h.quiet hsane ⟨h.clean, done, ?_⟩ (fun _ he => (by cases he)) (fun _ => id) rfl
      exact hb.of_eq rfl rfl Chan.queue_dropSender rfl
  | dropSend hs =>
      refine h.quiet hsane ⟨h.clean, done, ?_⟩ (fun _ => id) (fun _ he => (by cases he)) rfl
      exact hb.move rfl empties_dropSender
        (hb.stage.of_eq rfl rfl Chan.queue_dropSender Chan.sent_dropSender)

omit [VecAlloc] in
theorem answering_handshake {inner : Transport} (h0 : inner.written = [])
    (htx : TxClean inner.tx) : Answering [] (handshake inner) where
  sane := sane_handshake inner
  clean := htx
  books := by
    refine ⟨[], ⟨?_, .nil, ?_, ?_, rfl, Nat.zero_le _⟩⟩
    · exact (given_withCapacity _ _).trans h0
    · rintro x ⟨⟩
    · rintro x ⟨⟩
  respond := fun _ he => by cases he
  send := fun _ hs => by cases hs

/-- The exchanges of a run, in their order. -/
def exchanges (as : List Action) (w : World) : List Exchange := (record step note as [] w).reverse

/-- What has been given to the writer is what the user gave for the requests, in their order, each
answered to the end before the next; of the last one a front may be. -/
structure Answered (xs : List Exchange) (w : World) (done : List Said) : Prop where
  given : w.conn.io.inner.written ++ w.conn.io.backlog = done.flatMap Said.bytes
  answers : ∀ (k : Nat) (y : Said), done[k]? = some y → ∃ x, xs[k]? = some x ∧ Answers x y
  settled : ∀ (k : Nat) (x : Exchange), xs[k]? = some x → k + 1 < xs.length ∨ w.conn.state = .recvReq →
    ∃ y, done[k]? = some y ∧ Completes x y

omit [VecAlloc] in
theorem Books.answered {done : List Said} (hb : Books xs done w.conn) :
    Answered xs.reverse w done.reverse := by
  refine ⟨hb.given, fun k y hy => hb.stage.allButLast.answers hy, fun k x hx hk => ?_⟩
  rw [List.length_reverse] at hk
  rcases hk with hk | hs
  · exact hb.stage.allButLast.settled hx hk
  · have hst := hb.stage
    rw [Stage, hs] at hst
    exact Completed.get hst hx

/-- **What is written is what was answered.**  Where the transport's answers to writes do not fail, the
bytes that have been written, with those that are pending, are the heads of the user's responses, each
with the items of its body, in the order of the requests; before the next request is received, and
where the codec is idle, a response is there with all its items. -/
theorem answers_written (inner : Transport) (as : List Action) (h0 : inner.written = [])
    (htx : TxClean inner.tx) :
    ∃ done, Answered (exchanges as (handshake inner)) (Runs.after step as (handshake inner)) done := by
  have h : Answering (record step note as [] (handshake inner))
      (Runs.after step as (handshake inner)) :=
    run_record (I := Answering) (fun _ _ a h _ => answering_step h a) (along_true as _) (answering_handshake h0 htx)
  obtain ⟨done, hb⟩ := h.books
  exact ⟨done.reverse, hb.answered⟩

/-- The first request is answered with a body, and the next is received. -/
def answerBody : List Action :=
  [.accept 0, .respond twoByteRes false, .drive 0, .pushData false 0 (ascii "hi") true, .drive 0,
    .dropRecv, .dropSend, .accept 0]

/-- A peer that has sent two requests, and is slow to take what is written. -/
def slowPeer : Transport :=
  ⟨[.data (getHead "" ++ getHead "")], true, [.accept 3, .pending, .accept 100], [], 0⟩

omit [VecAlloc] [Crates] in
theorem answerBody_run :
    letI := VecAlloc.amortized
    letI := getCrates
    let xs := exchanges answerBody (handshake slowPeer)
    xs.length = 2 ∧ xs[0]?.map Exchange.items = some [(ascii "hi", true)] :=
  ⟨by decide +kernel, by decide +kernel⟩

omit [VecAlloc] [Crates] in
theorem answerBody_written :
    letI := VecAlloc.amortized
    letI := getCrates
    let w := Runs.after step answerBody (handshake slowPeer)
    ∃ done : List Said, w.conn.io.inner.written ++ w.conn.io.backlog = done.flatMap Said.bytes ∧
      ∃ y, done[0]? = some y ∧ y.items = [(ascii "hi", true)] := by
  obtain ⟨done, hgiven, -, hsettled⟩ := @answers_written getCrates VecAlloc.amortized slowPeer
    answerBody rfl (by simp [slowPeer, TxClean])
  obtain ⟨hlen, hmap⟩ := answerBody_run
  obtain ⟨x, hx, hitems⟩ := Option.map_eq_some_iff.mp hmap
  obtain ⟨y, hy, -, hwhole, -⟩ := hsettled 0 x hx (.inl (hlen.symm ▸ Nat.one_lt_two))
  exact ⟨done, hgiven, y, hy, hwhole.trans hitems⟩

end User

end HreqH1.Server
