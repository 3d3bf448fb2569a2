import BlockProgram.Text.ClusterClass

/-! What a reader takes for one character: a letter with its marks, a Korean syllable written in
letters, a flag, or pictographs tied together. Columns of a document and the indentation of a
here-document count these clusters. -/
namespace BlockProgram.Text

/-- Characters at the front of which the class is one of some, and what follows them. -/
def spanClasses (classes : List ClusterClass) : List Char → List Char × List Char
  | [] => ([], [])
  | c :: cs =>
    if classes.contains (clusterClass c) then
      let (taken, rest) := spanClasses classes cs
      (c :: taken, rest)
    else ([], c :: cs)

def spanOne (kind : ClusterClass) : List Char → List Char × List Char
  | [] => ([], [])
  | c :: cs => if clusterClass c = kind then ([c], cs) else ([], c :: cs)

/-- The marks behind a syllable, a flag or a pictograph: a joiner takes the pictograph after it
along. -/
def extension : List Char → List Char × List Char
  | [] => ([], [])
  | c :: cs =>
    match clusterClass c with
    | .extend => let (taken, rest) := extension cs; (c :: taken, rest)
    | .spacing => let (taken, rest) := extension cs; (c :: taken, rest)
    | .joiner =>
      match cs with
      | [] => ([c], [])
      | d :: ds =>
        if clusterClass d = .pictograph then
          let (taken, rest) := extension ds
          (c :: d :: taken, rest)
        else
          let (taken, rest) := extension (d :: ds)
          (c :: taken, rest)
    | _ => ([], c :: cs)

/-- The vowels, if there may be some, and the final consonants of a syllable. -/
def syllableEnd (vowels : Bool) (cs : List Char) : List Char × List Char :=
  let (middle, rest) := if vowels then spanClasses [.vowel] cs else ([], cs)
  let (last, rest) := spanClasses [.tail] rest
  (middle ++ last, rest)

/-- What follows the consonants a syllable begins with: vowels with an open syllable before them or
not, or a closed syllable, and final consonants after them. -/
def afterLeads (cs : List Char) : List Char × List Char :=
  match cs with
  | [] => ([], [])
  | c :: r =>
    match clusterClass c with
    | .vowel => syllableEnd true cs
    | .closedSyllable => let (taken, rest) := syllableEnd false r; (c :: taken, rest)
    | .openSyllable =>
      match spanClasses [.vowel] r with
      | ([], _) => ([c], r)
      | (vowels, rest) => let (last, rest) := spanClasses [.tail] rest; (c :: (vowels ++ last), rest)
    | _ => ([], cs)

/-- The rest of a cluster that begins with a character of the class `kind`, and what follows it. -/
def clusterRest (kind : ClusterClass) (cs : List Char) : List Char × List Char :=
  let extended (first : List Char × List Char) : List Char × List Char :=
    let (more, rest) := extension first.2
    (first.1 ++ more, rest)
  match kind with
  | .carriageReturn => spanOne .newline cs
  | .newline => ([], cs)
  | .control => ([], cs)
  | .prepend => ([], cs)
  | .lead =>
    let (leads, rest) := spanClasses [.lead] cs
    let (more, rest) := afterLeads rest
    extended (leads ++ more, rest)
  | .openSyllable => extended (syllableEnd true cs)
  | .vowel => extended (syllableEnd true cs)
  | .closedSyllable => extended (syllableEnd false cs)
  | .tail => extended (spanClasses [.tail] cs)
  | .region => extended (spanOne .region cs)
  | .pictograph => extended ([], cs)
  | _ => spanClasses [.extend, .joiner, .spacing] cs

/-- The first cluster of a text that begins with `c`, and what follows it. Signs that stand before a
number or a letter belong to the cluster after them, unless that is a control character or a line
end. -/
def firstCluster (c : Char) (cs : List Char) : List Char × List Char :=
  if clusterClass c = .prepend then
    let (signs, rest) := spanClasses [.prepend] cs
    match rest with
    | [] => (c :: signs, [])
    | d :: ds =>
      match clusterClass d with
      | .carriageReturn => (c :: signs, rest)
      | .newline => (c :: signs, rest)
      | .control => (c :: signs, rest)
      | kind =>
        let (more, rest) := clusterRest kind ds
        (c :: (signs ++ d :: more), rest)
  else
    let (more, rest) := clusterRest (clusterClass c) cs
    (c :: more, rest)

def clustersWithin : Nat → List Char → List (List Char)
  | 0, _ => []
  | _ + 1, [] => []
  | fuel + 1, c :: cs =>
    let (cluster, rest) := firstCluster c cs
    cluster :: clustersWithin fuel rest

/-- The clusters of a text. Together they are the text. -/
def clusters (cs : List Char) : List (List Char) := clustersWithin cs.length cs

end BlockProgram.Text
