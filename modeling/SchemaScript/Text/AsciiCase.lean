/-!
# ASCII letter case

Keywords of a script, type names and dialect names are compared without regard to the
case of ASCII letters. All other characters stand for themselves: `é` and `É` differ
here. The upper-casing that decides whether a bare word is a keyword reaches further and
lives in `Text.FullUpper`.
-/

namespace SchemaScript
namespace Text

-- A statement about the characters of a list is decided by running through the list: there
-- may be an instance in scope that runs through all characters instead.
attribute [instance (high)] List.decidableBAll Option.decidableForallMem

/-- The text with its ASCII letters in lower case. -/
def foldCase (cs : List Char) : List Char :=
  cs.map Char.toLower

/-- The string with its ASCII letters in upper case. -/
def upper (s : String) : String :=
  String.ofList (s.toList.map Char.toUpper)

/-- The string with its ASCII letters in lower case. -/
def lower (s : String) : String :=
  String.ofList (foldCase s.toList)

/-- Whether two strings differ at most in the case of ASCII letters. -/
def sameIgnoringCase (a b : String) : Bool :=
  foldCase a.toList == foldCase b.toList

/-- Whether `needle` stands somewhere in `text`. -/
def occursIn (needle : List Char) : List Char → Bool
  | [] => needle.isEmpty
  | c :: cs => needle.isPrefixOf (c :: cs) || occursIn needle cs

/-- Whether `text` begins with `start`, the case of ASCII letters aside. -/
def startsWithIgnoringCase (text start : List Char) : Bool :=
  match text, start with
  | _, [] => true
  | [], _ :: _ => false
  | c :: cs, s :: ss => c.toLower == s.toLower && startsWithIgnoringCase cs ss

/-- Whether `needle` stands somewhere in `text`, the case of ASCII letters aside. -/
def containsIgnoringCase (text needle : String) : Bool :=
  occursIn (foldCase needle.toList) (foldCase text.toList)

@[simp] theorem toList_upper (s : String) : (upper s).toList = s.toList.map Char.toUpper := by
  simp [upper]

@[simp] theorem toList_lower (s : String) : (lower s).toList = foldCase s.toList := by
  simp [lower]

@[simp] theorem foldCase_nil : foldCase [] = [] := rfl

@[simp] theorem foldCase_cons (c : Char) (cs : List Char) :
    foldCase (c :: cs) = c.toLower :: foldCase cs := rfl

@[simp] theorem foldCase_append (a b : List Char) :
    foldCase (a ++ b) = foldCase a ++ foldCase b := by
  simp [foldCase]

/-- Beginning with a text, case aside, is having its folded form as a prefix of one's own. -/
theorem startsWithIgnoringCase_eq (text start : List Char) :
    startsWithIgnoringCase text start = (foldCase start).isPrefixOf (foldCase text) := by
  induction start generalizing text with
  | nil => cases text <;> simp [startsWithIgnoringCase]
  | cons s ss ih =>
    cases text with
    | nil => simp [startsWithIgnoringCase]
    | cons c cs =>
      simp only [startsWithIgnoringCase, ih, foldCase_cons, List.isPrefixOf_cons_cons]
      rw [Bool.beq_comm]

@[simp] theorem sameIgnoringCase_self (a : String) : sameIgnoringCase a a = true := by
  simp [sameIgnoringCase]

end Text
end SchemaScript
