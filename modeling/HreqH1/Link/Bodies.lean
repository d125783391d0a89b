import HreqH1.Client.Replies
import HreqH1.Client.Wire
import HreqH1.Sending.Chunked

/-!
# Link — bodies

What a user gives a `SendStream`, in calls that are accepted, and what is put on its channel for it.  Of
both, what counts goes up to the call that ends the body: there an item is made of each call (`Carries`),
so that the items are the data itself, or a body in the coding with that data in it
(`Carries.sized`, `Carries.coding`).
-/

namespace HreqH1.Link
open PollM SendStream Client

/-- What is put on the channel for a call. -/
def coded (chunked : Bool) (x : Bytes × Bool) : Bytes × Bool :=
  (if chunked then codedItem x.1 x.2 else x.1, x.2)

/-- The calls of a body that are accepted, once there has been one more. -/
def gaveAfter (gave : List (Bytes × Bool)) (bs : Bytes) (fin : Bool) :
    Outcome Error Unit → List (Bytes × Bool)
  | .ready _ => gave ++ [(bs, fin)]
  | _ => gave

/-- The data of a body. -/
def givenData (gave : List (Bytes × Bool)) : Bytes := chunks (upToEnd gave)

/-- One of the calls ends the body. -/
def Ended (gave : List (Bytes × Bool)) : Prop := gave.any Prod.snd = true

/-- The items of the body are those of the calls. -/
structure Carries (chunked : Bool) (gave sent : List (Bytes × Bool)) : Prop where
  items : upToEnd sent = (upToEnd gave).map (coded chunked)
  ends : Ended sent ↔ Ended gave
  count : sent.length ≤ gave.length

/-- The stream of a message with a body, in its coding. -/
structure Gives (chunked : Bool) (gave : List (Bytes × Bool)) (s : SendStream) : Prop where
  limit : if chunked then s.limit = .chunkedEncoder else ∃ v, s.limit = .contentLength v
  ended : s.ended = true → Ended gave

variable {chunked : Bool} {gave sent l : List (Bytes × Bool)} {x : Bytes × Bool}

/-! ### Up to the end -/

theorem upToEnd_of_not_ended (h : ¬ Ended l) : upToEnd l = l := by
  induction l with
  | nil => rfl
  | cons x l ih =>
      rw [Ended, List.any_cons, Bool.or_eq_true, not_or] at h
      rw [upToEnd, if_neg h.1, ih h.2]

theorem upToEnd_prefix_self (l : List (Bytes × Bool)) : upToEnd l <+: l := by
  induction l with
  | nil => exact List.prefix_refl _
  | cons x l ih =>
      rw [upToEnd]
      split
      · exact ⟨l, rfl⟩
      · exact (List.prefix_cons_inj x).mpr ih

theorem upToEnd_concat_of_ended (h : Ended l) : upToEnd (l ++ [x]) = upToEnd l := by
  induction l with
  | nil => cases h
  | cons y l ih =>
      rw [List.cons_append, upToEnd, upToEnd]
      by_cases hy : y.2 = true
      · rw [if_pos hy, if_pos hy]
      · rw [Ended, List.any_cons, Bool.or_eq_true] at h
        rw [if_neg hy, if_neg hy, ih (h.resolve_left hy)]

theorem upToEnd_concat_of_not_ended (h : ¬ Ended l) : upToEnd (l ++ [x]) = l ++ [x] := by
  induction l with
  | nil =>
      rw [List.nil_append, upToEnd, upToEnd]
      split <;> rfl
  | cons y l ih =>
      rw [Ended, List.any_cons, Bool.or_eq_true, not_or] at h
      rw [List.cons_append, upToEnd, if_neg h.1, ih h.2]

theorem ended_concat : Ended (l ++ [x]) ↔ Ended l ∨ x.2 = true := by
  rw [Ended, Ended, List.any_append, Bool.or_eq_true, List.any_cons, List.any_nil, Bool.or_false]

theorem Ended.concat (h : Ended l) : Ended (l ++ [x]) := ended_concat.mpr (.inl h)

/-! ### The items of the calls -/

theorem carries_nil : Carries chunked [] [] := ⟨rfl, Iff.rfl, Nat.le_refl _⟩

/-- A call that is accepted, and its item. -/
theorem Carries.concat (h : Carries chunked gave sent) :
    Carries chunked (gave ++ [x]) (sent ++ [coded chunked x]) := by
  refine ⟨?_, ?_, ?_⟩
  · by_cases he : Ended gave
    · rw [upToEnd_concat_of_ended he, upToEnd_concat_of_ended (h.ends.mpr he)]
      exact h.items
    · have hs : ¬ Ended sent := fun hs => he (h.ends.mp hs)
      have heq := h.items
      rw [upToEnd_of_not_ended he, upToEnd_of_not_ended hs] at heq
      rw [upToEnd_concat_of_not_ended he, upToEnd_concat_of_not_ended hs, List.map_append, heq]
      rfl
  · rw [ended_concat, ended_concat, h.ends]
    exact Iff.rfl
  · rw [List.length_append, List.length_append]
    exact Nat.succ_le_succ h.count

/-- An empty call behind the end. -/
theorem Carries.behind (h : Carries chunked gave sent) (he : Ended gave) :
    Carries chunked (gave ++ [x]) sent := by
  refine ⟨?_, iff_of_true (h.ends.mpr he) he.concat, ?_⟩
  · rw [upToEnd_concat_of_ended he]
    exact h.items
  · rw [List.length_append]
    exact Nat.le_succ_of_le h.count

/-- Where nothing is given behind the end, there is no item behind it. -/
theorem Carries.whole (h : Carries chunked gave sent) (hlast : ∀ x ∈ gave.dropLast, x.2 = false) :
    upToEnd sent = sent := by
  refine (upToEnd_prefix_self sent).eq_of_length_le ?_
  have hgave : gave <+: upToEnd gave := upToEnd_prefix (List.prefix_refl gave) hlast
  rw [h.items, List.length_map]
  exact Nat.le_trans h.count hgave.length_le

/-- With a content-length, the items are the data. -/
theorem Carries.sized (h : Carries false gave sent) : chunks (upToEnd sent) = givenData gave := by
  rw [h.items, givenData, chunks, chunks, List.flatMap_map]
  rfl

/-- The items of chunked calls are a body in the coding. -/
theorem chunks_coded (hshort : ∀ x ∈ l, x.1.length < 16 ^ 10) (he : Ended l) :
    ∃ cs : List Chunk, bodyData cs = givenData l ∧
      chunks ((upToEnd l).map (coded true)) = codedBody cs ChunkedDecoder.plainLast := by
  induction l with
  | nil => cases he
  | cons x l ih =>
      have hlt := hshort x List.mem_cons_self
      obtain ⟨cs, hdata, hbytes⟩ : ∃ cs : List Chunk, bodyData cs = x.1 ∧
          cs.flatMap Chunk.bytes = chunkOf x.1 := by
        by_cases hne : x.1 = []
        · exact ⟨[], hne.symm, by rw [chunkOf, if_pos hne]; rfl⟩
        · exact ⟨[.ofData x.1 hne hlt], by simp [bodyData, Chunk.ofData],
            by rw [chunkOf_ofData hne hlt]; simp⟩
      rw [givenData, upToEnd]
      by_cases hx : x.2 = true
      · refine ⟨cs, ?_, ?_⟩
        · rw [if_pos hx, hdata]
          simp [chunks]
        · rw [if_pos hx, codedBody, hbytes, chunks]
          simp [coded, codedItem, hx, bodyEnd_eq]
      · rw [Ended, List.any_cons, Bool.or_eq_true] at he
        obtain ⟨rest, hrest, hcoded⟩ := ih (fun y hy => hshort y (List.mem_cons_of_mem x hy))
          (he.resolve_left hx)
        refine ⟨cs ++ rest, ?_, ?_⟩
        · rw [if_neg hx, bodyData, List.flatMap_append, ← bodyData, ← bodyData, hdata, hrest]
          rfl
        · have hitem : (coded true x).1 = chunkOf x.1 := by simp [coded, codedItem, hx]
          rw [if_neg hx, List.map_cons, chunks, List.flatMap_cons, hitem, ← chunks, hcoded, codedBody,
            codedBody, List.flatMap_append, hbytes, List.append_assoc]

theorem Carries.coding (h : Carries true gave sent) (hshort : ∀ x ∈ gave, x.1.length < 16 ^ 10)
    (he : Ended gave) : ∃ cs : List Chunk, bodyData cs = givenData gave ∧
      chunks (upToEnd sent) = codedBody cs ChunkedDecoder.plainLast := by
  rw [h.items]
  exact chunks_coded hshort he

/-! ### A call -/

section Call
variable [VecAlloc] {s s' : SendStream} {b b' : Chan (Bytes × Bool)} {cx : Waker} {bs : Bytes}
  {fin owned : Bool} {o : Outcome Error Unit}

/-- The channel has the items of the calls on it. -/
structure Loaded (chunked : Bool) (gave : List (Bytes × Bool)) (b : Chan (Bytes × Bool)) : Prop where
  carries : Carries chunked gave b.sent
  dead : b.ended = true → b.receivers = 0

omit [VecAlloc] in
/-- The other end does not matter. -/
theorem Loaded.drains (h : Loaded chunked gave b) (hb : RecvStream.Drains b b') :
    Loaded chunked gave b' :=
  ⟨hb.sent.symm ▸ h.carries, hb.ended h.dead⟩

omit [VecAlloc] in
/-- A call that is accepted puts its item there. -/
theorem Loaded.push (h : Loaded chunked gave b) (ho : b.Open) :
    Loaded chunked (gave ++ [(bs, fin)]) (b.enqueue (coded chunked (bs, fin))) := by
  have he : b.ended = false := Bool.eq_false_iff.mpr fun he => ho.1 (h.dead he)
  refine ⟨?_, fun hend => ?_⟩
  · rw [Chan.sent_enqueue _ he]
    exact h.carries.concat
  · rw [Chan.ended_enqueue, he] at hend
    cases hend

omit [VecAlloc] in
theorem gaveAfter_of_ne (h : o ≠ .ready ()) : gaveAfter gave bs fin o = gave := by
  cases o with
  | ready u => exact absurd rfl h
  | _ => rfl

omit [VecAlloc] in
theorem short_gaveAfter (h : ∀ x ∈ gave, x.1.length < 16 ^ 10) (hlt : bs.length < 16 ^ 10) :
    ∀ x ∈ gaveAfter gave bs fin o, x.1.length < 16 ^ 10 := by
  intro x hx
  cases o with
  | ready u =>
      rcases List.mem_append.mp hx with hx | hx
      · exact h x hx
      · rw [List.mem_singleton.mp hx]
        exact hlt
  | _ => exact h x hx

omit [VecAlloc] in
/-- The limiter of a message with a body. -/
theorem limit_kind {headers : HeaderMap} (h : (LimitWrite.fromHeaders headers).isNoBody = false) :
    if isChunked headers then LimitWrite.fromHeaders headers = .chunkedEncoder
      else ∃ v, LimitWrite.fromHeaders headers = .contentLength v := by
  rw [LimitWrite.fromHeaders] at h ⊢
  cases hc : isChunked headers with
  | true => rfl
  | false =>
      rw [hc, if_neg Bool.false_ne_true] at h
      rw [if_neg Bool.false_ne_true, if_neg Bool.false_ne_true]
      cases hg : getAs headers (ascii "content-length") with
      | some n => exact ⟨_, rfl⟩
      | none =>
          rw [hg] at h
          cases h

/-- A call of a message without a body, or past its end: nothing is accepted but an empty end. -/
theorem call_stopped (hend : s.ended = true) (hgave : ∀ x ∈ gave, x.1 = [])
    (hx : pollSendData cx (dataOf owned bs) fin (s, b) = (o, (s', b'))) :
    (∀ x ∈ gaveAfter gave bs fin o, x.1 = []) ∧ s' = s ∧ b' = b := by
  obtain ⟨rfl, heq⟩ := Prod.mk.inj ((pollSendData_ended hend).symm.trans hx)
  obtain ⟨rfl, rfl⟩ := Prod.mk.inj heq
  refine ⟨fun x hx => ?_, rfl, rfl⟩
  split at hx
  · next hb =>
    rcases List.mem_append.mp hx with hx | hx
    · exact hgave x hx
    · rw [List.mem_singleton.mp hx]
      exact List.isEmpty_iff.mp (isEmpty_dataOf owned bs ▸ hb.2)
  · exact hgave x hx

/-- A call of a message with a content-length. -/
theorem Gives.call_sized (hg : Gives false gave s) (hl : Loaded false gave b)
    (hx : pollSendData cx (dataOf owned bs) fin (s, b) = (o, (s', b'))) :
    Gives false (gaveAfter gave bs fin o) s' ∧ Loaded false (gaveAfter gave bs fin o) b' := by
  obtain ⟨limit, ended, drive⟩ := s
  obtain ⟨v, rfl⟩ : ∃ v, limit = .contentLength v := hg.limit
  have hended : ended = true → Ended gave := hg.ended
  rcases call_cases cx owned bs fin v ended drive b with
    ⟨r, v', c', hp, hr, -, -, hsent, hce, hcr⟩ | ⟨he, rfl, rfl, hp⟩ | ⟨he, ho, w, -, -, hp⟩
  · obtain ⟨rfl, heq⟩ := Prod.mk.inj (hp.symm.trans hx)
    obtain ⟨rfl, rfl⟩ := Prod.mk.inj heq
    rw [gaveAfter_of_ne hr]
    exact ⟨⟨⟨v', rfl⟩, hended⟩, ⟨hsent.symm ▸ hl.carries, hce ▸ hcr ▸ hl.dead⟩⟩
  · obtain ⟨rfl, heq⟩ := Prod.mk.inj (hp.symm.trans hx)
    obtain ⟨rfl, rfl⟩ := Prod.mk.inj heq
    exact ⟨⟨⟨v, rfl⟩, fun _ => (hended he).concat⟩, ⟨hl.carries.behind (hended he), hl.dead⟩⟩
  · obtain ⟨rfl, heq⟩ := Prod.mk.inj (hp.symm.trans hx)
    obtain ⟨rfl, rfl⟩ := Prod.mk.inj heq
    refine ⟨⟨⟨w, rfl⟩, fun hend => ?_⟩, hl.push ho⟩
    exact ended_concat.mpr (.inr (Bool.and_eq_true_iff.mp hend).2)

/-- A call of a chunked message. -/
theorem Gives.call_chunked (hg : Gives true gave s) (hl : Loaded true gave b)
    (hlt : bs.length < 16 ^ 10)
    (hx : pollSendData cx (dataOf owned bs) fin (s, b) = (o, (s', b'))) :
    Gives true (gaveAfter gave bs fin o) s' ∧ Loaded true (gaveAfter gave bs fin o) b' := by
  obtain ⟨limit, ended, drive⟩ := s
  obtain rfl : limit = .chunkedEncoder := hg.limit
  cases ended with
  | true =>
      have hend : Ended gave := hg.ended rfl
      obtain ⟨rfl, heq⟩ := Prod.mk.inj ((pollSendData_ended rfl).symm.trans hx)
      obtain ⟨rfl, rfl⟩ := Prod.mk.inj heq
      split
      · next hb => exact ⟨⟨rfl, fun _ => hend.concat⟩, ⟨hl.carries.behind hend, hl.dead⟩⟩
      · exact ⟨hg, hl⟩
  | false =>
      by_cases h0 : b.receivers = 0
      · obtain ⟨rfl, heq⟩ := Prod.mk.inj ((pollSendData_closed rfl h0).symm.trans hx)
        obtain ⟨rfl, rfl⟩ := Prod.mk.inj heq
        exact ⟨hg, hl⟩
      · by_cases ho : b.Open
        · obtain ⟨rfl, heq⟩ := Prod.mk.inj ((call_coding hlt ho).symm.trans hx)
          obtain ⟨rfl, rfl⟩ := Prod.mk.inj heq
          exact ⟨⟨rfl, fun hend => ended_concat.mpr (.inr hend)⟩, hl.push ho⟩
        · obtain ⟨rfl, heq⟩ := Prod.mk.inj ((pollSendData_full rfl h0 ho).symm.trans hx)
          obtain ⟨rfl, rfl⟩ := Prod.mk.inj heq
          exact ⟨hg, ⟨hl.carries, hl.dead⟩⟩

/-- **A call**: it is accepted, and its item is on the channel; or it is not, and nothing is. -/
theorem Gives.call (hg : Gives chunked gave s) (hl : Loaded chunked gave b)
    (hlt : bs.length < 16 ^ 10)
    (hx : pollSendData cx (dataOf owned bs) fin (s, b) = (o, (s', b'))) :
    Gives chunked (gaveAfter gave bs fin o) s' ∧ Loaded chunked (gaveAfter gave bs fin o) b' := by
  cases chunked with
  | true => exact hg.call_chunked hl hlt hx
  | false => exact hg.call_sized hl hx

end Call

end HreqH1.Link
