import TokenRules.Pattern.Escape

/-! Bracket expressions. A closing bracket that comes first is a member; a hyphen between two
characters makes a range. -/
namespace TokenRules.Pattern.Bracket

variable [CharacterNames]

/-- One character or class, from its first token and those after it. Here `\b` is a backspace and
every octal digit starts an octal number. -/
def atom : Token → List Token → Except Fault (Atom × List Token)
  | .plain c, rest => .ok (.char c, rest)
  | .dangling, _ => .error .badSyntax
  | .escaped c, rest =>
    if c == 0x62 then .ok (.char 0x08, rest)
    else if Escape.isOctalDigit c then
      let (digits, rest) := Token.span Escape.isOctalDigit 2 rest
      Escape.octal (c :: digits) rest
    else Escape.common c rest

theorem atom_length (h : atom t ts = .ok (a, rest)) : rest.length ≤ ts.length := by
  cases t with
  | plain c => simp_all [atom]
  | dangling => simp [atom] at h
  | escaped c =>
    simp only [atom] at h
    split at h
    · simp_all
    · split at h
      · have := Token.span_length Escape.isOctalDigit 2 ts
        simp_all [Escape.octal_rest h]
      · exact Escape.common_length h

/-- The members up to the closing bracket; those before are given, last first. -/
def members (ascii : Bool) (found : List Member) :
    List Token → Except Fault (List Member × List Token)
  | [] => .error .badSyntax
  | t :: ts =>
    if t == .plain Sign.rightBracket && !found.isEmpty then .ok (found.reverse, ts)
    else
      match _h : atom t ts with
      | .error e => .error e
      | .ok (first, .plain Sign.hyphen :: .plain Sign.rightBracket :: rest) =>
        .ok ((.single Sign.hyphen :: first.member ascii :: found).reverse, rest)
      | .ok (first, .plain Sign.hyphen :: u :: us) =>
        match _h' : atom u us with
        | .error e => .error e
        | .ok (last, rest) =>
          match first, last with
          | .char low, .char high =>
            if high < low then .error .badSyntax
            else members ascii (.range low high :: found) rest
          | _, _ => .error .badSyntax
      | .ok (_, [.plain Sign.hyphen]) => .error .badSyntax
      | .ok (first, rest) => members ascii (first.member ascii :: found) rest
termination_by ts => ts.length
decreasing_by
  · have first := atom_length _h
    have last := atom_length _h'
    simp only [List.length_cons] at first ⊢
    omega
  · have first := atom_length _h
    simp only [List.length_cons]
    omega

/-- The set from just after the opening bracket. Equal members count once. -/
def read (f : Flags) (ts : List Token) : Except Fault (CharSet × List Token) :=
  let (negated, ts) := match ts with
    | .plain Sign.caret :: rest => (true, rest)
    | _ => (false, ts)
  match members f.ascii [] ts with
  | .error e => .error e
  | .ok (found, rest) =>
    .ok (⟨found.eraseDups, negated, Folding.ofFlags f⟩, rest)

theorem members_length (h : members ascii found ts = .ok (ms, rest)) :
    rest.length ≤ ts.length := by
  fun_induction members ascii found ts with grind [→ atom_length]

theorem read_length (h : read f ts = .ok (result, rest)) : rest.length ≤ ts.length := by
  simp only [read] at h
  grind [→ members_length]

end TokenRules.Pattern.Bracket
