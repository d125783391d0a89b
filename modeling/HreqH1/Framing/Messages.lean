import HreqH1.Framing.Fields
import HreqH1.Reading.Limited
import HreqH1.Reading.Scan

/-!
# Framing — messages

A stream of messages, each a head and the body that its header fields announce, one after the other.
A chunked body leaves the end of its last chunk in the reader (`Payload.left`), in front of the next
head.  `remaining ms k` is what is to be read when the `k`-th head is looked for; the head that is
found there is that of the `k`-th message, if `parse` reads it as such (`Message.found`), and its
limiter then reads the body and stops at its end (`Payload.Announced.limit`).
-/

namespace HreqH1
open BufIo

/-- The body of a message. -/
inductive Payload where
  | none
  | sized (data : Bytes)
  | chunked (chunks : List Chunk) (last : LastChunk)

namespace Payload

def data : Payload → Bytes
  | none => []
  | sized data => data
  | chunked cs _ => bodyData cs

/-- The body as it is sent. -/
def bytes : Payload → Bytes
  | none => []
  | sized data => data
  | chunked cs l => codedBody cs l

/-- What its limiter leaves of it in the reader. -/
def left : Payload → Bytes
  | chunked _ l => l.left
  | _ => []

/-- The body is the one that the header fields announce. -/
def Announced (headers : HeaderMap) : Payload → Prop
  | none => headers.get transferEncoding = .none ∧ headers.get contentLength = .none
  | sized data => headers.get transferEncoding = .none ∧
      ∃ v, headers.get contentLength = some v ∧ PlainDecimal v data.length ∧ data.length < 2 ^ 64
  | chunked _ _ => ∃ v, headers.get transferEncoding = some v ∧ toStr v = some v ∧ ¬ identity <:+: v

/-- A body without bytes has no data. -/
theorem data_of_bytes {p : Payload} (h : p.bytes = []) : p.data = [] := by
  cases p with
  | none => rfl
  | sized data => exact h
  | chunked cs l =>
      exact absurd (List.append_eq_nil_iff.mp (List.append_eq_nil_iff.mp h).2).1 l.zeros_ne

/-- The limiter of a body that is announced, over the body. -/
theorem Announced.limit {p : Payload} {headers : HeaderMap} {b : Bool} (h : p.Announced headers)
    (hb : b = true → p ≠ none) : (LimitRead.fromHeaders headers b).isNoBody = true ∧ p.bytes = [] ∧
        p.left = [] ∨
      (LimitRead.fromHeaders headers b).isNoBody = false ∧
        ∀ (io : BufIo) (tail : Bytes), io.stream = p.bytes ++ tail →
          (LimitRead.fromHeaders headers b).Awaits io p.data (p.left ++ tail) := by
  cases p with
  | none =>
      obtain ⟨ht, hc⟩ := h
      have hg : getAs headers contentLength = .none := by
        rw [getAs, getStr, hc]
        rfl
      obtain rfl : b = false := Bool.eq_false_iff.mpr fun he => hb he rfl
      rw [LimitRead.fromHeaders, isChunked_of_none ht, if_neg Bool.false_ne_true,
        ← HreqH1.contentLength, hg]
      exact .inl ⟨rfl, rfl, rfl⟩
  | sized data =>
      obtain ⟨ht, v, hc, hv, hlt⟩ := h
      have hg : getAs headers contentLength = some data.length := getAs_plain hc hv hlt
      have hl : LimitRead.fromHeaders headers b = .contentLength ⟨data.length, 0⟩ := by
        rw [LimitRead.fromHeaders, isChunked_of_none ht, if_neg Bool.false_ne_true,
          ← HreqH1.contentLength, hg]
      rw [hl, LimitRead.isNoBody]
      cases data with
      | nil => exact .inl ⟨rfl, rfl, rfl⟩
      | cons b data =>
          refine .inr ⟨rfl, fun io tail hst => ?_⟩
          exact .contentLength (Nat.zero_add _) hlt hst
  | chunked cs l =>
      obtain ⟨v, ht, hv, hi⟩ := h
      rw [LimitRead.fromHeaders, isChunked_of_coding ht hv hi, if_pos rfl]
      refine .inr ⟨rfl, fun io tail hst => ?_⟩
      exact .chunked ⟨_, ChunkedDecoder.expects_start 0, hst⟩

end Payload

/-- A message: its head, what that is parsed to, and the body. -/
structure Message (α : Type) where
  head : Bytes
  parsed : α
  body : Payload

variable {α : Type} {ms : List (Message α)} {m : Message α} {k : Nat}

def Message.bytes (m : Message α) : Bytes := m.head ++ m.body.bytes

/-- What is in front of the head of the `k`-th message when it is looked for. -/
def leftBefore (ms : List (Message α)) : Nat → Bytes
  | 0 => []
  | k + 1 => (ms[k]?.map fun m => m.body.left).getD []

/-- What is to be read when the head of the `k`-th message is looked for. -/
def remaining (ms : List (Message α)) (k : Nat) : Bytes :=
  leftBefore ms k ++ (ms.drop k).flatMap Message.bytes

/-- The data of the `k`-th body. -/
def messageData (ms : List (Message α)) (k : Nat) : Bytes :=
  (ms[k]?.map fun m => m.body.data).getD []

theorem remaining_zero : remaining ms 0 = ms.flatMap Message.bytes := rfl

theorem messageData_of_some (h : ms[k]? = some m) : messageData ms k = m.body.data := by
  rw [messageData, h]
  rfl

theorem remaining_of_some (h : ms[k]? = some m) : remaining ms k =
    leftBefore ms k ++ m.head ++ (m.body.bytes ++ (ms.drop (k + 1)).flatMap Message.bytes) := by
  rw [remaining, List.drop_eq_getElem?_toList_append, h, Option.toList_some, List.singleton_append,
    List.flatMap_cons, Message.bytes, List.append_assoc, List.append_assoc]

theorem remaining_succ (h : ms[k]? = some m) :
    remaining ms (k + 1) = m.body.left ++ (ms.drop (k + 1)).flatMap Message.bytes := by
  rw [remaining, leftBefore, h]
  rfl

/-- `parse` reads the head of a message, behind the bytes `lead`, and no less than all of it. -/
structure Message.Heads (parse : Bytes → Bool → Except IoError (Option α)) (m : Message α)
    (lead : Bytes) : Prop where
  headEnd : HeadEnd (lead ++ m.head)
  parsed : parse (lead ++ m.head) false = .ok (some m.parsed)

/-- No head is found in what the last message leaves. -/
structure Spent (parse : Bytes → Bool → Except IoError (Option α)) (lead : Bytes) : Prop where
  noEnd : NoEnd lead
  parsed : ∀ x, parse lead true ≠ .ok (some x)

/-- **The head that is found is the next one.** -/
theorem Message.found {parse : Bytes → Bool → Except IoError (Option α)} {io io' : BufIo}
    {head : Bytes} {eos : Bool} {x : α} (hst : io.stream = remaining ms k)
    (hcl : Transport.Clean io.inner.rx) (hf : HeadFound head eos io io')
    (hp : parse head eos = .ok (some x)) (hm : ∀ m, ms[k]? = some m → m.Heads parse (leftBefore ms k))
    (he : ms[k]? = none → Spent parse (leftBefore ms k)) :
    ∃ m, ms[k]? = some m ∧ m.parsed = x ∧
      io'.stream = m.body.bytes ++ (ms.drop (k + 1)).flatMap Message.bytes := by
  have hread : remaining ms k = head ++ io'.stream := hst.symm.trans hf.reads.stream
  have hcut : eos = true → NoEnd head ∧ io'.stream = [] := by
    rintro rfl
    obtain ⟨hne, -, heof⟩ := hf.cut rfl
    obtain ⟨he, hu⟩ := heof hcl
    exact ⟨hne, he.stream hu⟩
  cases hk : ms[k]? with
  | none =>
      obtain ⟨hne, hpn⟩ := he hk
      have hrest : remaining ms k = leftBefore ms k := by
        rw [remaining, List.drop_eq_nil_of_le (List.getElem?_eq_none_iff.mp hk), List.flatMap_nil,
          List.append_nil]
      rw [hrest] at hread
      cases eos with
      | true =>
          rw [(hcut rfl).2, List.append_nil] at hread
          exact absurd (hread ▸ hp) (hpn x)
      | false => exact absurd hne ((hf.ended rfl).1.not_noEnd hread.symm)
  | some m =>
      obtain ⟨hend, hpm⟩ := hm m hk
      rw [remaining_of_some hk] at hread
      cases eos with
      | true =>
          obtain ⟨hne, hnil⟩ := hcut rfl
          rw [hnil, List.append_nil] at hread
          exact absurd hne (hend.not_noEnd hread)
      | false =>
          obtain ⟨rfl, htail⟩ := hend.unique (hf.ended rfl).1 hread
          obtain rfl : m.parsed = x := Option.some.inj (Except.ok.inj (hpm.symm.trans hp))
          exact ⟨m, rfl, rfl, htail.symm⟩

end HreqH1
