import ArchiveOverlay.Source

namespace ArchiveOverlay

/-- A member of a container. -/
structure ContainerMember where
  name : String
  isDirectory : Bool
  /-- Its content, given the bytes of the container. Some ways of storing it cannot be read. -/
  source? : ByteArray → Option Source

/-- A way to read containers: the members of the one with these bytes, in the order of its
directory, or none if it is not a container. -/
abbrev ContainerReader := ByteArray → Option (List ContainerMember)

end ArchiveOverlay
