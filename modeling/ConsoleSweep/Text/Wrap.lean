/-
  Texts set in lines of a given width.

  A text is cut into pieces: the gaps between its words, and the words, which may
  also end behind a hyphen. A line takes the pieces that fit into it. A gap at the
  end of a line is dropped, and a word that fits into no line is cut.
-/
namespace ConsoleSweep.Text.Wrap

/-- Whether a piece is a gap; a piece without characters is one. -/
def isGap (piece : List Char) : Bool :=
  piece.all (· = ' ')

/-- Whether a word may end behind a hyphen: it has two letters before it, and two follow. `before`
has the last character first. -/
def mayEnd (before after : List Char) : Bool :=
  match before, after with
  | '-' :: a :: b :: _, c :: d :: _ => a.isAlpha && b.isAlpha && c.isAlpha && d.isAlpha
  | _, _ => false

/-- The pieces of a text. `piece` is what was read of the current one, last character first. -/
def piecesFrom (piece : List Char) : List Char → List (List Char)
  | [] => if piece.isEmpty then [] else [piece.reverse]
  | c :: rest =>
    if !piece.isEmpty && isGap piece != (c == ' ') then piece.reverse :: piecesFrom [c] rest
    else if mayEnd (c :: piece) rest then (c :: piece).reverse :: piecesFrom [] rest
    else piecesFrom (c :: piece) rest

/-- The line that the pieces make, if they make one. -/
def lineOf (pieces : List (List Char)) : List (List Char) :=
  let kept := match pieces.getLast? with
    | some last => if isGap last then pieces.dropLast else pieces
    | none => pieces
  if kept.isEmpty then [] else [kept.flatten]

/-- The lines that the pieces make behind those that are already in the current line. The second
argument bounds the number of steps. -/
def linesFrom (width : Nat) : Nat → List (List Char) → List (List Char) → List (List Char)
  | 0, _, _ => []
  | _, line, [] => lineOf line
  | fuel + 1, line, piece :: rest =>
    let used := line.flatten.length
    if line.isEmpty && isGap piece then linesFrom width fuel [] rest
    else if used + piece.length ≤ width then linesFrom width fuel (line ++ [piece]) rest
    else if piece.length ≤ width then lineOf line ++ linesFrom width fuel [] (piece :: rest)
    else
      lineOf (line ++ [piece.take (width - used)]) ++
        linesFrom width fuel [] (piece.drop (width - used) :: rest)

/-- A text in lines of at most `width` characters, of which there is at least one. -/
def wrap (width : Nat) (text : String) : List String :=
  (linesFrom width (2 * text.length + 2) [] (piecesFrom [] text.toList)).map String.ofList

end ConsoleSweep.Text.Wrap
