import HvmlFpm.Request.AllOrNothing
import HvmlFpm.Strtol
import HvmlFpm.Worker.BadBody

namespace HvmlFpm.Worker
open Library Multipart Request
variable {Vdom : Type}

theorem isDigit_eq (c : UInt8) : isDigit c = digitIn 10 c := by
  have upper : c ≤ 57 ↔ c.toNat < 48 + 10 := by
    rw [UInt8.le_iff_toNat_le]
    exact Nat.lt_succ_iff.symm
  rw [isDigit, digitIn, decide_eq_decide.2 upper]

theorem strtoul_of_denotes {text : CString} {value : Int} (denotes : DenotesInt 10 text value) :
    strtoul text = if 2 ^ 64 ≤ value.natAbs then 2 ^ 64 - 1 else (value % 2 ^ 64).toNat := by
  obtain ⟨blanks, sign, digits, split, allBlank, nonempty, allDigits, rfl⟩ := denotes
  obtain ⟨first, rest, rfl⟩ := List.exists_cons_of_ne_nil nonempty
  have allDecimal : ∀ c ∈ first :: rest, isDigit c = true := fun c member => (isDigit_eq c).trans (allDigits c member)
  have large : 48 ≤ first := by
    have digit := allDecimal first (by simp)
    rw [isDigit, Bool.and_eq_true] at digit
    simpa using digit.1
  have unmarked : first ≠ 43 ∧ first ≠ 45 := by
    constructor
    · rintro rfl
      exact absurd large (by decide)
    · rintro rfl
      exact absurd large (by decide)
  have body : text.bytes.dropWhile isspace = sign.bytes ++ first :: rest := by
    rw [split, List.dropWhile_append_of_pos allBlank]
    cases sign with
    | none => exact List.dropWhile_cons_of_neg (by
        intro blank
        simp [isspace_undigital 10 first blank] at allDigits)
    | plus => rfl
    | minus => rfl
  have taken : (first :: rest).takeWhile isDigit = first :: rest := List.takeWhile_eq_self_iff.2 allDecimal
  have value : (first :: rest).foldl (fun n c => 10 * n + (c - 48).toNat) 0 = digitsValue 10 (first :: rest) := rfl
  simp only [strtoul, body]
  generalize digitsValue 10 (first :: rest) = n at value
  cases sign with
  | none =>
      have unsigned : ¬ some first = some (43 : UInt8) := by simp [unmarked]
      have positive : ¬ some first = some (45 : UInt8) := by simp [unmarked]
      simp only [Sign.bytes, List.nil_append, List.head?_cons, unsigned, positive, or_self, if_false, taken, value,
        Sign.apply, Int.natAbs_natCast]
      exact if_ctx_congr Iff.rfl (fun _ => rfl) fun small => by omega
  | plus =>
      have positive : ¬ some (43 : UInt8) = some 45 := by decide
      simp only [Sign.bytes, List.cons_append, List.nil_append, List.head?_cons, or_true, if_true, List.tail_cons,
        positive, if_false, taken, value, Sign.apply, Int.natAbs_natCast]
      exact if_ctx_congr Iff.rfl (fun _ => rfl) fun small => by omega
  | minus =>
      simp only [Sign.bytes, List.cons_append, List.nil_append, List.head?_cons, true_or, if_true, List.tail_cons,
        taken, value, Sign.apply, Int.natAbs_neg, Int.natAbs_natCast]
      exact if_ctx_congr Iff.rfl (fun _ => rfl) fun small => by omega

/-- The decoder gets the value of `CONTENT_LENGTH`, or the request is refused. -/
def KeepsLength (host : RequestHost Vdom) (input : Input) (contentLength : Nat) : Prop :=
  (∃ text, input.environ (.lit "CONTENT_LENGTH") = some text ∧ DenotesInt 10 text contentLength) ∨
    ∃ req, makeRequest host input = .fail req

def LengthInRange (text : CString) : Prop := ∃ value, DenotesInt 10 text value ∧ 0 < value ∧ value < 2 ^ 32

/-- What else makes `make_request` give up behind the length: a multipart body without a boundary, which
calls no decoder, or a script that does not load when the decoder and the cookie parser return. -/
def RefusedBehindLength (host : RequestHost Vdom) (input : Input) (contentLength : Nat) (checked : Checked) : Prop :=
  (checked.ct = .formData ∧ checked.boundary = none) ∨
    ((∀ boundary, checked.ct = .formData → checked.boundary = some boundary →
        (parseContentAsMultipartFormData host.toHost contentLength boundary input.stdin).stopped? = none) ∧
      (∀ cookie, input.environ (.lit "HTTP_COOKIE") = some cookie →
        (purcMakeObjectFromHttpHeaderValue host.purc cookie).isSome = true) ∧
      host.loadHvmlFromFile (input.environ (.lit "SCRIPT_FILENAME")) = none)

section Posted
variable {host : RequestHost Vdom} {input : Input} {contentLength : Nat} {checked : Checked}

theorem posted_refused_iff (posted : Posted host input contentLength checked) :
    (∃ req, makeRequest host input = .fail req) ↔ RefusedBehindLength host input contentLength checked := by
  obtain ⟨server, set, phases⟩ := makeRequest_posted posted
  have cookieHeld := getStringConst_metaVar set (show (CString.lit "HTTP_COOKIE", _) ∈ metaVars by decide +kernel)
  have scriptHeld := getStringConst_metaVar set (show (CString.lit "SCRIPT_FILENAME", _) ∈ metaVars by decide +kernel)
  rw [phases, RefusedBehindLength]
  rcases decodeBody_cases host input contentLength posted.supported
      ⟨{ RequestInfo.cleared with server := some (.object server) }, checked.printed, []⟩ with
    ⟨formData, unbounded, decodes⟩ | ⟨called, decodes⟩
  · rw [decodes, failed]
    simp [formData, unbounded]
  · cases run : decodeBody host input contentLength checked
      ⟨{ RequestInfo.cleared with server := some (.object server) }, checked.printed, []⟩ with
    | fail left =>
        rw [run] at decodes
        exact decodes.elim
    | stop why left =>
        rw [run] at decodes
        obtain ⟨boundary, formData, found, stops⟩ := decodes
        constructor
        · simp
        · rintro (unbounded | ⟨returns, _⟩)
          · exact absurd unbounded called
          · simp [returns boundary formData found] at stops
    | ok decoded =>
        rw [run] at decodes
        have loads (req : Draft Vdom) : (∃ left, loadVdom host server (fillIn req) = .fail left) ↔
            host.loadHvmlFromFile (input.environ (.lit "SCRIPT_FILENAME")) = none := by
          rw [loadVdom, scriptHeld]
          cases host.loadHvmlFromFile (input.environ (.lit "SCRIPT_FILENAME")) with
          | none => simp [failed]
          | some vdom => simp
        rw [or_iff_right called, Outcome.ok_bind, readCookie, cookieHeld]
        have returns : (∀ boundary, checked.ct = .formData → checked.boundary = some boundary →
            (parseContentAsMultipartFormData host.toHost contentLength boundary input.stdin).stopped? = none) := decodes
        cases cookie : input.environ (.lit "HTTP_COOKIE") with
        | none =>
            rw [Outcome.ok_bind, loads]
            simpa using fun _ => returns
        | some text =>
            cases parsed : purcMakeObjectFromHttpHeaderValue host.purc text with
            | none => simp [parsed]
            | some obj =>
                simp only [parsed, Outcome.ok_bind, loads]
                simpa [parsed] using fun _ => returns

theorem length_kept_iff (posted : Posted host input contentLength checked) (word : host.uninitialised < 2 ^ 32) :
    KeepsLength host input contentLength ↔
      (∃ text, input.environ (.lit "CONTENT_LENGTH") = some text ∧ LengthInRange text) ∨
        RefusedBehindLength host input contentLength checked := by
  rw [KeepsLength, posted_refused_iff posted]
  apply or_congr_left
  obtain ⟨sent, set, cast⟩ := posted.length
  have positive := posted.positive
  have narrow : contentLength < 2 ^ 32 := by
    rw [cast, castToUint32]
    split_ifs with fits
    · exact fits
    · exact word
  constructor
  · intro ⟨text, held, denotes⟩
    exact ⟨text, held, contentLength, denotes, by omega, by omega⟩
  · intro ⟨text, held, value, denotes, above, below⟩
    obtain rfl := Option.some.inj (set.symm.trans held)
    have small : ¬ 2 ^ 64 ≤ value.natAbs := by omega
    have read := strtoul_of_denotes denotes
    rw [if_neg small] at read
    have same : contentLength = value.toNat := by
      rw [cast, read, castToUint32, if_pos (by omega)]
      omega
    exact ⟨sent, set, by rwa [same, Int.toNat_of_nonneg above.le]⟩

end Posted

theorem shortText_length_kept_iff :
    KeepsLength (scriptHost (some ())) shortText 5 ↔
      (∃ text, shortText.environ (.lit "CONTENT_LENGTH") = some text ∧ LengthInRange text) ∨
        RefusedBehindLength (scriptHost (some ())) shortText 5 ⟨.plain, none, []⟩ :=
  length_kept_iff (shortText_posted (some ())) (by decide)

def fiveHost : RequestHost Unit := { scriptHost (some ()) with uninitialised := 5 }

def longText : Input :=
  { shortText with
      environ := fun name =>
        if name = .lit "CONTENT_LENGTH" then some (.lit "4294967296") else shortText.environ name }

theorem longText_length_unset :
    Posted fiveHost longText 5 ⟨.plain, none, []⟩ ∧ ¬ KeepsLength fiveHost longText 5 := by
  have held : longText.environ (.lit "CONTENT_LENGTH") = some (.lit "4294967296") := by decide +kernel
  constructor
  · exact {
      encoded := by
        change (setMetaVars plainHost.purc longText.environ).isSome = true
        decide +kernel
      method := ⟨.lit "POST", by decide +kernel, by decide⟩
      length := ⟨.lit "4294967296", held, by change 5 = castToUint32 5 _; decide +kernel⟩
      positive := by decide
      contentType := by
        refine ⟨.lit "text/plain", by decide +kernel, ?_⟩
        change checkPostContentType purcScanners _ = _
        decide +kernel
      supported := rfl }
  · rintro (⟨text, same, denotes⟩ | ⟨req, refused⟩)
    · obtain rfl := Option.some.inj (held.symm.trans same)
      have read := scan_of_denotesInt denotes
      exact absurd read (by decide +kernel)
    · have made : (makeRequest fiveHost longText).result?.isSome = true := by
        decide +kernel
      simp [refused, Outcome.result?] at made

end HvmlFpm.Worker
