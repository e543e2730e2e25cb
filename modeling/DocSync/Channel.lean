/-! The names of the channels that diagnostics go to. -/

namespace DocSync

/-- The channel above all others. -/
def rootChannel : String := "blocksync"

/-- A channel's full name: every channel lies below the root channel. -/
def channelName (name : String) : String :=
  if name = rootChannel || name.startsWith (rootChannel ++ ".") then name
  else rootChannel ++ "." ++ name

end DocSync
