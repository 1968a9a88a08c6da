import HvmlFpm.Purc

/-!
# Header attributes and cookies

The text functions of `mpart-body-processor.c`. `none` is a null pointer that is dereferenced.
-/

namespace HvmlFpm.Multipart
open Library

def isspace (c : UInt8) : Bool := c == 32 || (9 ≤ c && c ≤ 13)

def isQuote (c : UInt8) : Bool := c == 34 || c == 39

-- The backward loop of the C code stops at the first byte; that byte is not one it would drop.
def strTrim (str : CString) : CString := (str.dropWhile isspace).rdropWhile isspace

def strStripQuotes (str : CString) : CString := (str.dropWhile isQuote).rdropWhile isQuote

def strStartsWith (str substr : CString) : Bool := substr.bytes.isPrefixOf str.bytes

def strSanitize (str : CString) : CString :=
  str.map (fun c => if isspace c then 95 else c) fun c h => by
    by_cases space : isspace c = true
    · simp [space] at h
    · simpa [space] using h

def unread (ptr : Option CString) : Nat := ptr.elim 0 fun s => s.length + 1

theorem unread_strsep {delimiter : UInt8} {ptr rest : Option CString} {token : CString}
    (h : CString.strsep delimiter ptr = (some token, rest)) : unread rest < unread ptr := by
  cases ptr with
  | none => simp [CString.strsep] at h
  | some s =>
      cases rest with
      | none => simp [unread]
      | some r =>
          have := CString.strsep_length_lt h
          simp only [unread, Option.elim_some]
          omega

def attrsLoop (map : Kvlist) (dupValue : Option CString) : Option Kvlist :=
  match _h : CString.strsep 59 dupValue with
  | (none, _) => some map
  | (some pair, rest) =>
      let (name, pair) := CString.strsep 61 (some pair)
      let (value, _) := CString.strsep 61 pair
      match name, value with
      | some name, some value =>
          attrsLoop (kvlistSet map (strTrim name) (strTrim (strStripQuotes value))) rest
      | _, _ => none
termination_by unread dupValue
decreasing_by exact unread_strsep _h

def attrsMapParse (map : Kvlist) (str : CString) : Option Kvlist :=
  attrsLoop map (some (str.dropWhile isspace))

def cookieLoop (purc : Purc) (obj : Members) (dupValue : Option CString) : Option Members :=
  match _h : CString.strsep 59 dupValue with
  | (none, _) => some obj
  | (some pair, rest) =>
      let (name, pair) := CString.strsep 61 (some pair)
      let (value, _) := CString.strsep 61 pair
      match name, value with
      | some name, some value =>
          match purc.makeString (strTrim name), purc.makeString (strTrim value) with
          | some _, some v => cookieLoop purc (obj.set (strTrim name) v) rest
          | _, _ => cookieLoop purc obj rest
      | _, _ => none
termination_by unread dupValue
decreasing_by all_goals exact unread_strsep _h

def purcMakeObjectFromHttpHeaderValue (purc : Purc) (line : CString) : Option Members :=
  cookieLoop purc .empty (some (line.dropWhile isspace))

end HvmlFpm.Multipart
