import LinuxTla.Coredump.Progress
import LinuxTla.Coredump.Release
import LinuxTla.Coredump.IoWqExitBit
import LinuxTla.Coredump.CorePattern
import LinuxTla.FdTable.DupRace
import LinuxTla.MntOwn.Pinners
import LinuxTla.MntPut.Window
import LinuxTla.MntWriters.Progress
import LinuxTla.MntNs.Progress
import LinuxTla.Mount.Survivors
import LinuxTla.Mount.Iterators
import LinuxTla.Mount.Sharing
import LinuxTla.LockMount.Orphans
import LinuxTla.MountWalk.Refused
import LinuxTla.MountVacate.Answers
import LinuxTla.MntVacant.Cycles
import LinuxTla.Verity.Progress
import LinuxTla.Userns.Progress
import LinuxTla.Fiber.Backed
import LinuxTla.Fiber.Deadlines
import LinuxTla.Executor.Progress
import LinuxTla.FdTable.Clone
import LinuxTla.CloseOrder.Hangs
