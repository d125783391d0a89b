import HreqH1.Client.Ledger
import HreqH1.Framing.Messages
import HreqH1.Framing.Requests
import HreqH1.Reading.Framing
import HreqH1.Reading.WrittenHeads

/-!
# Link — heads

What `write_http1x_req` writes, and what `try_parse_req` makes of it: a head is the request line and the
header lines of `arrival req`, and the server is given that request, if `httparse` and `http` read the
head as it is written (`ReadBack`).  In front of it there may be what the chunked body of the last
request leaves (`leads`).
-/

namespace HreqH1.Link
open PollM BufIo Client

/-- What the decoder leaves of a body that `write_finish` has ended. -/
def bodyRest : Bytes := ChunkedDecoder.plainLast.left

/-- What there may be in front of a head. -/
def leads : List Bytes := [[], bodyRest]

/-- The port in the `host` field. -/
def hostPort (req : Request) : Bytes :=
  let defaultPort :=
    if req.uri.scheme = some (ascii "https") then 443
    else if req.uri.scheme = some (ascii "http") then 80
    else 0
  let port := (req.uri.port.filter fun p => p ≠ defaultPort).getD 0
  if port ≠ 0 then ascii ":" ++ decimal port else []

/-- The `host` field that is added to a request without one. -/
def hostField (req : Request) : HeaderMap :=
  if req.headers.any fun h => h.1 == ascii "host" then []
  else (req.uri.host.map fun h => (ascii "host", h ++ hostPort req)).toList

/-- The path in the request line. -/
def pathOf (req : Request) : Bytes := req.uri.pathAndQuery.getD (ascii "/")

/-- The request as it arrives: the `host` field is there, and of the URI the path. -/
def arrival (req : Request) : Request where
  method := req.method
  uri := ⟨none, none, none, some (pathOf req)⟩
  version := req.version
  headers := hostField req ++ req.headers

/-- The number of a version in a head. -/
def minorOf (v : Version) : Nat := if v = .http11 then 1 else 0

/-! ### Lines -/

section Lines
variable {req : Request} {head : Bytes}

theorem hostLine_eq (req : Request) : hostLine req =
    (hostField req).flatMap fun h => h.1 ++ ascii ": " ++ h.2 ++ ascii "\r\n" := by
  rw [hostLine, hostField]
  split
  · rfl
  · cases hh : req.uri.host with
    | none => rfl
    | some h =>
        have hname : ascii "host" ++ ascii ": " = ascii "host: " := by decide
        rw [Option.map_some, Option.toList_some, List.flatMap_singleton, hostPort, hname]
        generalize (if req.uri.scheme = some (ascii "https") then 443
          else if req.uri.scheme = some (ascii "http") then 80 else 0) = d
        cases req.uri.port with
        | none => simp
        | some p => by_cases hp : p = d <;> simp [hp, Option.filter]

theorem headerLines_append (fields headers : HeaderMap) :
    (fields.flatMap fun h => h.1 ++ ascii ": " ++ h.2 ++ ascii "\r\n") ++ headerLines headers =
      headerLines (fields ++ headers) := by
  rw [headerLines, headerLines, List.flatMap_append, List.append_assoc]

/-- **The lines of a head.** -/
theorem reqHead_lines (h : reqHead req = .ready head) :
    ∃ ver, versionBytes req.version = .ok ver ∧
      head = req.method.bytes ++ ascii " " ++ pathOf req ++ ascii " HTTP/" ++ ver ++ ascii "\r\n" ++
        headerLines (arrival req).headers := by
  rw [reqHead, writeHttp1xReq] at h
  cases hv : versionBytes req.version with
  | error m =>
      rw [hv] at h
      cases h
  | ok ver =>
      rw [hv] at h
      obtain ⟨rfl, -⟩ := writeCursor_ready (Prod.ext h rfl)
      refine ⟨ver, rfl, ?_⟩
      rw [hostLine_eq, List.append_assoc _ (List.flatMap _ _), headerLines_append]
      rfl

theorem plain_hostPort (req : Request) : Plain (hostPort req) := by
  have hport : ∀ n : Nat, Plain (if n ≠ 0 then ascii ":" ++ decimal n else []) := by
    intro n
    split
    · exact Plain.append (by decide +kernel) (plain_decimal n)
    · decide +kernel
  exact hport _

theorem plain_host (h : PlainReq req) : PlainHeaders (arrival req).headers := by
  intro x hx
  rcases List.mem_append.mp hx with hx | hx
  · rw [hostField] at hx
    split at hx
    · cases hx
    · obtain ⟨host, hhost, rfl⟩ := Option.map_eq_some_iff.mp (Option.mem_toList.mp hx)
      have hname : Plain (ascii "host") := by decide +kernel
      exact ⟨hname, (h.host host hhost).append (plain_hostPort req)⟩
  · exact h.headers x hx

/-- The scan is not at the end in what is in front of a head. -/
theorem passes_lead {lead : Bytes} (h : lead ∈ leads) : ∃ i, i ≠ 4 ∧ Passes 0 lead i := by
  rcases List.mem_cons.mp h with rfl | h
  · exact ⟨0, by decide, .nil (by decide)⟩
  · rw [List.mem_singleton.mp h]
    exact ⟨3, by decide, ⟨by decide, by decide⟩⟩

theorem noEnd_lead {lead : Bytes} (h : lead ∈ leads) : NoEnd lead := by
  obtain ⟨i, -, hp⟩ := passes_lead h
  exact hp.before

/-- A head ends where it ends, behind what is in front of it. -/
theorem headEnd_req {lead : Bytes} (hlead : lead ∈ leads) (hp : PlainReq req)
    (h : reqHead req = .ready head) : HeadEnd (lead ++ head) := by
  obtain ⟨i, hi, hpass⟩ := passes_lead hlead
  obtain ⟨ver, hv, rfl⟩ := reqHead_lines h
  rw [← List.append_assoc]
  refine (plain_host hp).headEnd (hpass.append (Plain.line ?_ ?_ hi))
  · have hpath : Plain (pathOf req) := plain_getD hp.path (by decide +kernel)
    exact (((hp.method.append (by decide +kernel)).append hpath).append
      (by decide +kernel)).append (plain_versionBytes hv)
  · simp [ascii]

end Lines

/-! ### Parsing -/

section Parsing
variable [Crates] {req : Request} {head lead : Bytes}

/-- `httparse` and `http` read the head of `req` behind `lead` as it is written. -/
structure ReadBack (req : Request) (lead : Bytes) : Prop where
  parse : ∀ head, reqHead req = .ready head → Crates.parseReq (lead ++ head) =
    .ok (false, ⟨some req.method.bytes, some (pathOf req), some (minorOf req.version),
      (arrival req).headers⟩)
  fields : ∀ h ∈ (arrival req).headers, Crates.headerName h.1 = .ok h.1 ∧ Crates.headerValue h.2 = .ok h.2
  uri : Crates.buildUri (some (pathOf req)) = .ok (arrival req).uri
  method : Crates.method req.method.bytes = .ok req.method

/-- A request that can be sent, with what `http` makes sure of, whose head is read as it is written. -/
structure Legible (req : Request) : Prop where
  head : ∃ head, reqHead req = .ready head
  plain : PlainReq req
  readBack : ∀ lead ∈ leads, ReadBack req lead

theorem keepHeaders_eq {headers : HeaderMap}
    (h : ∀ x ∈ headers, Crates.headerName x.1 = .ok x.1 ∧ Crates.headerValue x.2 = .ok x.2) :
    keepHeaders headers = headers := by
  induction headers with
  | nil => rfl
  | cons x headers ih =>
      obtain ⟨hname, hvalue⟩ := h x List.mem_cons_self
      have hrest := ih fun y hy => h y (List.mem_cons_of_mem x hy)
      rw [keepHeaders] at hrest ⊢
      rw [List.filterMap_cons, hname, hvalue, hrest]

/-- **What arrives of a head.** -/
theorem ReadBack.parsed (h : ReadBack req lead) (hh : reqHead req = .ready head) (eos : Bool) :
    tryParseReq (lead ++ head) eos = .ok (some (arrival req)) := by
  obtain ⟨ver, hv, -⟩ := reqHead_lines hh
  have hver : (if (some (minorOf req.version)) = some 1 then Version.http11 else Version.http10) =
      req.version := by
    cases hr : req.version with
    | http10 => rfl
    | http11 => rfl
    | _ =>
        rw [hr] at hv
        cases hv
  rw [tryParseReq, h.parse head hh]
  dsimp only
  rw [if_neg Bool.false_ne_true, h.uri]
  dsimp only
  rw [h.method]
  dsimp only
  rw [keepHeaders_eq h.fields, hver]
  rfl

/-- The heads of a message whose request is sent. -/
theorem Legible.heads {m : Message Request} (h : Legible req) (hlead : lead ∈ leads)
    (hh : reqHead req = .ready m.head) (hm : m.parsed = arrival req) : m.Heads tryParseReq lead where
  headEnd := headEnd_req hlead h.plain hh
  parsed := by
    rw [hm]
    exact (h.readBack lead hlead).parsed hh false

end Parsing

/-! ### Fields -/

section Fields
variable {req : Request} {name : Bytes}

/-- The field that is added is looked up under its own name only. -/
theorem get_arrival (hn : name ≠ ascii "host") : (arrival req).headers.get name = req.headers.get name := by
  have hnone : ∀ h ∈ hostField req, (h.1 == name) = false := by
    intro h hh
    rw [hostField] at hh
    split at hh
    · cases hh
    · obtain ⟨host, -, rfl⟩ := Option.map_eq_some_iff.mp (Option.mem_toList.mp hh)
      exact beq_eq_false_iff_ne.mpr hn.symm
  have hfind : (hostField req).find? (fun h => h.1 == name) = none :=
    List.find?_eq_none.mpr fun h hh => Bool.eq_false_iff.mp (hnone h hh)
  rw [HeaderMap.get, HeaderMap.get]
  show ((hostField req ++ req.headers).find? _).map _ = _
  rw [List.find?_append, hfind, Option.none_or]

theorem announced_arrival {p : Payload} (h : p.Announced req.headers) :
    p.Announced (arrival req).headers := by
  have ht : (arrival req).headers.get transferEncoding = req.headers.get transferEncoding :=
    get_arrival (by decide)
  have hc : (arrival req).headers.get contentLength = req.headers.get contentLength :=
    get_arrival (by decide)
  cases p with
  | none => exact ⟨ht.trans h.1, hc.trans h.2⟩
  | sized data =>
      obtain ⟨h₁, v, h₂, h₃⟩ := h
      exact ⟨ht.trans h₁, v, hc.trans h₂, h₃⟩
  | chunked cs l =>
      obtain ⟨v, h₁, h₂⟩ := h
      exact ⟨v, ht.trans h₁, h₂⟩

/-- A coding that is not the identity. -/
theorem coding_of_isChunked {headers : HeaderMap} (h : isChunked headers = true) :
    ∃ v, headers.get transferEncoding = some v ∧ toStr v = some v ∧ ¬ identity <:+: v := by
  rw [isChunked, ← transferEncoding] at h
  cases hg : headers.get transferEncoding with
  | none =>
      rw [hg] at h
      cases h
  | some v =>
      rw [hg, Option.bind_some] at h
      have hv : toStr v = some v ∨ toStr v = none := by
        rw [toStr]
        split
        · exact .inl rfl
        · exact .inr rfl
      rcases hv with hv | hv
      · rw [hv, Option.map_some, Option.getD_some, ← identity, Bool.not_eq_true', decide_eq_false_iff_not] at h
        exact ⟨v, rfl, hv, h⟩
      · rw [hv] at h
        cases h

end Fields

end HreqH1.Link
