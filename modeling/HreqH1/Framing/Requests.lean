import HreqH1.Framing.Fields
import HreqH1.Model.Server

/-!
# Framing — Requests

How the body of an incoming request is framed, over all header maps.  `Unambiguous` is the reading of
the header fields a proxy agrees with; `LimitRead::from_headers` asks for the first value of each
field only, takes every transfer coding but `identity` for `chunked`, and refuses nothing.

`poll_next_req` hands on every request that parses, with the framing of `Framed`; that is the
unambiguous one where there is one and the transfer codings are plain (`next_req_framing`).
-/

namespace HreqH1

/-! ### Unambiguous framing -/

/-- The parts of `v` between commas. -/
def splitCommas (v : Bytes) : List Bytes := v.splitOn 44

/-- Without spaces and tabs at its ends, and in lower case. -/
def normalize (v : Bytes) : Bytes :=
  let isBlank (b : Byte) : Bool := b == 32 || b == 9
  (((v.dropWhile isBlank).reverse.dropWhile isBlank).reverse).map fun b =>
    if 65 ≤ b ∧ b ≤ 90 then b + 32 else b

/-- The transfer codings of all `transfer-encoding` fields. -/
def codings (headers : HeaderMap) : List Bytes :=
  (headers.getAll transferEncoding).flatMap fun v => (splitCommas v).map normalize

/-- The framing every reading of the header fields comes to. -/
def Unambiguous (headers : HeaderMap) : Framing → Prop
  | .chunked => (codings headers).getLast? = some (ascii "chunked")
  | .contentLength n => (codings headers).getLast? ≠ some (ascii "chunked") ∧
      headers.getAll contentLength ≠ [] ∧
      ∀ value ∈ headers.getAll contentLength, PlainDecimal value n
  | .noBody => headers.getAll contentLength = [] ∧ ∀ c ∈ codings headers, c = identity
  | .readToEnd => False

/-- The transfer codings are none, or end in `chunked` and do not mention `identity`. -/
def PlainCodings (headers : HeaderMap) : Prop :=
  (∀ v ∈ headers.getAll transferEncoding, v = identity) ∨
    (codings headers).getLast? = some (ascii "chunked") ∧
      ∀ v ∈ headers.getAll transferEncoding, toStr v = some v ∧ ¬ identity <:+: v

/-! ### The framing of the code -/

/-- There is no transfer coding by the first `transfer-encoding` field. -/
def NoCoding (headers : HeaderMap) : Prop :=
  headers.get transferEncoding = none ∨ headers.get transferEncoding = some identity

/-- How `poll_next_req` frames the body of a request. -/
structure Framed (headers : HeaderMap) (limit : LimitRead) : Prop where
  chunked : ∀ v, headers.get transferEncoding = some v → toStr v = some v → ¬ identity <:+: v →
    limit = .chunkedDecoder .new
  contentLength : NoCoding headers → ∀ v n, headers.get contentLength = some v →
    PlainDecimal v n → n < 2 ^ 64 → limit = .contentLength ⟨n, 0⟩
  other : NoCoding headers → ∀ v, headers.get HreqH1.contentLength = some v →
    (∃ b ∈ v, ¬ IsDigit b ∧ b ≠ 43) → limit = .noBody
  none : NoCoding headers → headers.get HreqH1.contentLength = none → limit = .noBody

theorem NoCoding.isChunked {headers : HeaderMap} (h : NoCoding headers) :
    isChunked headers = false := by
  rcases h with h | h
  · exact isChunked_of_none h
  · exact isChunked_of_identity h

section First
variable {headers : HeaderMap} {name v : Bytes}

/-- The first value of a field. -/
theorem get_eq_head : headers.get name = (headers.getAll name).head? := by
  induction headers with
  | nil => rfl
  | cons h headers ih =>
      rw [HeaderMap.get, HeaderMap.getAll, List.find?_cons, List.filter_cons]
      cases h.1 == name with
      | true => rfl
      | false => exact ih

theorem get_eq_none (h : headers.getAll name = []) : headers.get name = none := by
  rw [get_eq_head, h]
  rfl

theorem get_mem (h : headers.getAll name ≠ []) :
    ∃ v, headers.get name = some v ∧ v ∈ headers.getAll name := by
  obtain ⟨v, vs, hv⟩ := List.exists_cons_of_ne_nil h
  exact ⟨v, by rw [get_eq_head, hv]; rfl, hv ▸ List.mem_cons_self⟩

end First

theorem PlainCodings.noCoding {headers : HeaderMap}
    (h : ∀ v ∈ headers.getAll transferEncoding, v = identity) : NoCoding headers := by
  by_cases hnil : headers.getAll transferEncoding = []
  · exact .inl (get_eq_none hnil)
  · obtain ⟨v, hv, hmem⟩ := get_mem hnil
    exact .inr (h v hmem ▸ hv)

theorem codings_identity {headers : HeaderMap}
    (h : ∀ v ∈ headers.getAll transferEncoding, v = identity) : ∀ c ∈ codings headers, c = identity := by
  intro c hc
  obtain ⟨v, hv, hc⟩ := List.mem_flatMap.mp hc
  rw [h v hv] at hc
  exact List.mem_singleton.mp ((show (splitCommas identity).map normalize = [identity] by decide) ▸ hc)

theorem fromHeaders_framed (headers : HeaderMap) :
    Framed headers (LimitRead.fromHeaders headers false) where
  chunked := fun v hv hs hi => if_pos (isChunked_of_coding hv hs hi)
  contentLength := fun h v n hv hp hn => by
    rw [LimitRead.fromHeaders, if_neg (Bool.eq_false_iff.mp h.isChunked), ← HreqH1.contentLength,
      getAs_plain hv hp hn]
  other := by
    rintro h v hv ⟨b, hb, hd, hs⟩
    rw [LimitRead.fromHeaders, if_neg (Bool.eq_false_iff.mp h.isChunked), ← HreqH1.contentLength,
      getAs_other hv hb hd hs]
    rfl
  none := fun h hn => by
    rw [LimitRead.fromHeaders, if_neg (Bool.eq_false_iff.mp h.isChunked), ← HreqH1.contentLength,
      getAs, getStr, hn]
    rfl

/-- Framing that is unambiguous is the code's, where the transfer codings are plain. -/
theorem Framed.of_unambiguous {headers : HeaderMap} {limit : LimitRead} {f : Framing}
    (h : Framed headers limit) (hu : Unambiguous headers f) (hp : PlainCodings headers)
    (hn : ∀ n, f = .contentLength n → n < 2 ^ 64) : limit.framing = f := by
  rcases hp with hid | ⟨hlast, hplain⟩
  · have hno : NoCoding headers := PlainCodings.noCoding hid
    cases f with
    | noBody => rw [h.none hno (get_eq_none hu.1)]; rfl
    | contentLength n =>
        obtain ⟨v, hv, hmem⟩ := get_mem hu.2.1
        rw [h.contentLength hno v n hv (hu.2.2 v hmem) (hn n rfl)]
        rfl
    | chunked =>
        have hc := codings_identity hid _ (List.mem_of_getLast? hu)
        exact absurd hc (by decide)
    | readToEnd => exact hu.elim
  · have hte : headers.getAll transferEncoding ≠ [] := by
      intro hnil
      rw [codings, hnil] at hlast
      cases hlast
    obtain ⟨v, hv, hmem⟩ := get_mem hte
    rw [h.chunked v hv (hplain v hmem).1 (hplain v hmem).2]
    cases f with
    | noBody => exact absurd (hu.2 _ (List.mem_of_getLast? hlast)) (by decide)
    | contentLength n => exact absurd hlast hu.1
    | chunked => rfl
    | readToEnd => exact hu.elim

namespace Server
open PollM

/-- What `poll_next_req` returns for the request `req`. -/
def handedOn (req : Request) : Option Package × State :=
  (some (req, .new (LimitRead.fromHeaders req.headers false).isNoBody true, req.method == .head),
    .sendRes (.new req))

theorem receive_eq (req : Request) (c : Conn) : (receive req c).1 = .ready (handedOn req) := rfl

/-- **Every request that parses is handed on**, whatever its header fields say of the body, and the
body is framed by the first value of each field. -/
theorem next_req_framing [VecAlloc] [Crates] (c : Conn) :
    match pollIo (pollForCrlfcrlf tryParseReq) c with
    | (.ready (.ok (some req)), _) =>
        (pollNextReq c).1 = .ready (handedOn req) ∧ Framed req.headers (Bidirect.new req).limit ∧
          ∀ f, Unambiguous req.headers f → PlainCodings req.headers →
            (∀ n, f = .contentLength n → n < 2 ^ 64) → (Bidirect.new req).limit.framing = f
    | _ => True := by
  split
  · next req c' hx =>
    have hframed := fromHeaders_framed req.headers
    refine ⟨?_, hframed, fun f hu hp hn => hframed.of_unambiguous hu hp hn⟩
    have ha : attempt (pollIo (pollForCrlfcrlf tryParseReq)) c =
        (.ready (.ok (.ok (some req))), c') := by
      rw [attempt, hx]
      rfl
    rw [pollNextReq, run_bind_ready ha]
    exact receive_eq req c'
  · trivial

/-- A request with two content-lengths. -/
def twoLengths : Request where
  method := .post
  uri := ⟨none, none, none, some (ascii "/")⟩
  version := .http11
  headers := [(contentLength, ascii "5"), (contentLength, ascii "6")]

/-- **A request with ambiguous framing is handed on**, and framed by the first content-length. -/
theorem ambiguous_handed_on :
    (receive twoLengths (handshake ⟨[], true, [], [], 0⟩).conn).1 = .ready (handedOn twoLengths) ∧
      (Bidirect.new twoLengths).limit = .contentLength ⟨5, 0⟩ ∧
      ∀ f, ¬ Unambiguous twoLengths.headers f := by
  have hl : (Bidirect.new twoLengths).limit = .contentLength ⟨5, 0⟩ := by decide
  refine ⟨rfl, hl, fun f h => ?_⟩
  cases f with
  | noBody => exact absurd h.1 (by decide)
  | contentLength n =>
      have h5 : PlainDecimal (ascii "5") n := h.2.2 (ascii "5") (by decide)
      have h6 : PlainDecimal (ascii "6") n := h.2.2 (ascii "6") (by decide)
      exact absurd (h5.2.2.trans h6.2.2.symm) (by decide)
  | chunked => exact absurd (show (codings twoLengths.headers).getLast? = _ from h) (by decide)
  | readToEnd => exact h

end Server

end HreqH1
