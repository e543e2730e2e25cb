/-! What comes of a value that is not what its place needs. -/

namespace DocSync

/-- How a value fails that is no text where a text is needed, or no number that will do. -/
inductive Misfit where
  /-- It was to be shown, or looked into. -/
  | noText
  /-- It was to be put together or compared with a text or a number, or measured. -/
  | noSum
  /-- It was to count something, and takes more than sixty-four bits. -/
  | uncountable
  /-- It asks for more blanks than a text can hold. -/
  | tooWide
  deriving DecidableEq, Repr, Inhabited

end DocSync
