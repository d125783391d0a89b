import HreqH1.Framing.Requests

/-!
# Framing — Connection

Whether a head allows the connection to be used again, by the options of all its `connection`
fields.  `is_keep_alive` asks for the first field only, and compares all of it, in the case it is
in, with `keep-alive` and `close`; anything else leaves it with the default of the version.

`Misread` is where that comes to something else than what the options say (`honours_iff`).
-/

namespace HreqH1

def connection : Bytes := ascii "connection"
def keepAlive : Bytes := ascii "keep-alive"
def close : Bytes := ascii "close"

/-- The options of all `connection` fields. -/
def connectionOptions (headers : HeaderMap) : List Bytes :=
  (headers.getAll connection).flatMap fun v => (splitCommas v).map normalize

/-- The connection is used again as the options say: not after `close`, otherwise after
`keep-alive`, and otherwise with HTTP/1.1. -/
structure Honours (headers : HeaderMap) (version : Version) (reuse : Bool) : Prop where
  close : close ∈ connectionOptions headers → reuse = false
  keepAlive : HreqH1.close ∉ connectionOptions headers → keepAlive ∈ connectionOptions headers →
    reuse = true
  default : HreqH1.close ∉ connectionOptions headers →
    HreqH1.keepAlive ∉ connectionOptions headers → (reuse = true ↔ version = .http11)

/-- The first field hides a `close`, or a `keep-alive` that the version does not stand in for. -/
def Misread (headers : HeaderMap) (version : Version) : Prop :=
  close ∈ connectionOptions headers ∧ headers.get connection ≠ some close ∧
      (version = .http11 ∨ headers.get connection = some keepAlive) ∨
    close ∉ connectionOptions headers ∧ keepAlive ∈ connectionOptions headers ∧
      headers.get connection ≠ some keepAlive ∧ version ≠ .http11

variable {headers : HeaderMap} {version : Version} {v : Bytes}

/-- A field that is one option only. -/
theorem mem_connectionOptions (h : headers.get connection = some v)
    (hv : (splitCommas v).map normalize = [v]) : v ∈ connectionOptions headers := by
  obtain ⟨field, hfield, rfl⟩ := Option.map_eq_some_iff.mp h
  refine List.mem_flatMap.mpr ⟨field.2, ?_, by rw [hv]; exact List.mem_singleton_self _⟩
  have hname : (field.1 == connection) = true := by simpa using List.find?_some hfield
  exact List.mem_map.mpr ⟨field, List.mem_filter.mpr ⟨List.mem_of_find?_eq_some hfield, hname⟩, rfl⟩

theorem close_mem (h : headers.get connection = some close) : close ∈ connectionOptions headers :=
  mem_connectionOptions h (by decide)

theorem keepAlive_mem (h : headers.get connection = some keepAlive) :
    keepAlive ∈ connectionOptions headers :=
  mem_connectionOptions h (by decide)

/-- **What `allow_reuse` looks at**: the first field, as it stands. -/
theorem allowReuse_eq : allowReuse headers version =
    if headers.get connection = some keepAlive then true
    else if headers.get connection = some close then false
    else decide (version = .http11) := by
  have hdef : allowReuse headers version = isKeepAlive headers (decide (version = .http11)) := by
    rw [allowReuse]
    split <;> simp [*]
  rw [hdef, isKeepAlive]
  show (((headers.get connection).bind toStr).bind fun h =>
    if h = keepAlive then some true else if h = close then some false else none).getD _ = _
  cases headers.get connection with
  | none => rfl
  | some v =>
      by_cases hk : v = keepAlive
      · subst hk
        rfl
      by_cases hc : v = close
      · subst hc
        rfl
      rw [if_neg (by simpa using hk), if_neg (by simpa using hc), Option.bind_some, toStr]
      split
      · rw [Option.bind_some, if_neg hk, if_neg hc]
        rfl
      · rfl

/-- **`allow_reuse` honours the options** of the `connection` fields exactly where the first field does
not hide them. -/
theorem honours_iff (headers : HeaderMap) (version : Version) :
    Honours headers version (allowReuse headers version) ↔ ¬ Misread headers version := by
  have hne : keepAlive ≠ close := by decide
  rw [allowReuse_eq]
  by_cases hk : headers.get connection = some keepAlive
  · have hkm := keepAlive_mem hk
    have hfirst : headers.get connection ≠ some close := by rw [hk]; simpa using hne
    rw [if_pos hk]
    refine ⟨fun h => ?_, fun h => ⟨fun hc => ?_, fun _ _ => rfl, fun _ hn => absurd hkm hn⟩⟩
    · rintro (⟨hc, -⟩ | ⟨-, -, hk', -⟩)
      · cases h.close hc
      · exact hk' hk
    · exact absurd (.inl ⟨hc, hfirst, .inr hk⟩) h
  rw [if_neg hk]
  by_cases hf : headers.get connection = some close
  · have hcm := close_mem hf
    rw [if_pos hf]
    refine ⟨fun _ => ?_, fun _ => ⟨fun _ => rfl, fun hn => absurd hcm hn, fun hn => absurd hcm hn⟩⟩
    rintro (⟨-, hf', -⟩ | ⟨hn, -⟩)
    · exact hf' hf
    · exact hn hcm
  rw [if_neg hf]
  refine ⟨fun h => ?_, fun h => ⟨fun hc => ?_, fun hn hkm => ?_, fun _ _ => decide_eq_true_iff⟩⟩
  · rintro (⟨hc, -, hv | hk'⟩ | ⟨hn, hkm, -, hv⟩)
    · exact absurd hv (of_decide_eq_false (h.close hc))
    · exact hk hk'
    · exact hv (of_decide_eq_true (h.keepAlive hn hkm))
  · exact decide_eq_false fun hv => h (.inl ⟨hc, hf, .inl hv⟩)
  · exact decide_eq_true (by_contra fun hv => h (.inr ⟨hn, hkm, hk, hv⟩))

end HreqH1
