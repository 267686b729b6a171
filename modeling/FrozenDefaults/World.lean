/-!
# Worlds

Default values exist twice: the builder world has the arena they are collected
in, and the reader world a copy of it in one segment.
-/

namespace FrozenDefaults

inductive World where
  | builder
  | reader
  deriving DecidableEq

namespace World

def name : World → String
  | builder => "builder"
  | reader => "reader"

def upperName : World → String
  | builder => "BUILDER"
  | reader => "READER"

def storageName : World → String
  | builder => "BuilderStorage"
  | reader => "ReaderStorage"

end World

end FrozenDefaults
