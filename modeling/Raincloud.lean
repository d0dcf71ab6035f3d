import Raincloud.Mm.HeapRun
import Raincloud.Arch.PagePool
import Raincloud.Arch.PageCalls
import Raincloud.Arch.PageRun
import Raincloud.Arch.Mapping
import Raincloud.Arch.ChunkMapping
import Raincloud.Infra.Program
import Raincloud.Kernel.Objects
import Raincloud.Klibc.Queue
import Raincloud.Mm.VmMap
import Raincloud.Proc.Process
import Raincloud.Proc.Sched
import Raincloud.Kernel.Frames
import Raincloud.Proc.Making
import Raincloud.Proc.Switch
import Raincloud.Proc.SchedCalls
import Raincloud.Proc.ExecExit
import Raincloud.Proc.SchedRun
import Raincloud.Arch.Context
import Raincloud.Proc.Resume
import Raincloud.Fs.Pipe
import Raincloud.Fs.Fat
import Raincloud.Fs.FatEntry
import Raincloud.Fs.FatFile
import Raincloud.Syscall.Table
import Raincloud.Fs.ClusterChain
import Raincloud.Proc.Books
import Raincloud.Proc.Family
import Raincloud.Proc.ThreadIds
import Raincloud.Fs.FileNode
import Raincloud.Infra.NameTree
import Raincloud.Fs.FindNode
import Raincloud.Fs.NodeRun
import Raincloud.Fs.RemoveNode
import Raincloud.Fs.MakeNode
import Raincloud.Fs.FatDir
import Raincloud.Fs.RootRecords
import Raincloud.Fs.ReadFile
import Raincloud.Display.PotableGrayMap
import Raincloud.Display.Console
import Raincloud.Arch.InitMmMap
import Raincloud.Arch.InitAgree
import Raincloud.Arch.PageExact
import Raincloud.Mm.HeapFail
import Raincloud.Mm.HeapRoom
import Raincloud.Infra.RoundRobin
import Raincloud.Proc.RoundRobin
import Raincloud.Arch.PageInit
import Raincloud.Arch.InitialPool
import Raincloud.Kernel.ListLoop
import Raincloud.Mm.MapRing
import Raincloud.Arch.PageSource
import Raincloud.Mm.MapDup
import Raincloud.Mm.MapClear
import Raincloud.Arch.ChunkEffect
import Raincloud.Mm.DoMapping
import Raincloud.Proc.Isolation
import Raincloud.Arch.BootMap
import Raincloud.Fs.ChainEnds
import Raincloud.Fs.WholeFile
import Raincloud.Fs.MountPath
import Raincloud.Proc.Destroy
import Raincloud.Proc.ForkFail
import Raincloud.Proc.ProcDup
import Raincloud.Fs.OpenFile
import Raincloud.Syscall.OpenFiles
import Raincloud.Syscall.BadFd
import Raincloud.Arch.TablePool
import Raincloud.Proc.ExecFile
import Raincloud.Syscall.FileLifetime
import Raincloud.Fs.ChainRoom
import Raincloud.Fs.Geometry
import Raincloud.Fs.MountSafe
import Raincloud.Fs.RootFound
import Raincloud.Fs.NameEncoding
import Raincloud.Fs.Listing
import Raincloud.Fs.LiveSearch
import Raincloud.Fs.DirWalk
import Raincloud.Fs.NameBounds
import Raincloud.Fs.SearchBlocks
import Raincloud.Syscall.FileRuns
import Raincloud.Proc.IdRuns
import Raincloud.Arch.PciScan
import Raincloud.Klibc.QueueRuns
import Raincloud.Klibc.Strtok
import Raincloud.Klibc.Atoi
import Raincloud.Fs.Transcoding
import Raincloud.Display.GlyphBDF
import Raincloud.Klibc.ListRings
import Raincloud.Klibc.PrintDeci
import Raincloud.Klibc.CodePoint
import Raincloud.Arch.ContextRuns
import Raincloud.Infra.Polling
import Raincloud.Arch.AtaDisk
import Raincloud.Arch.PioSector
import Raincloud.Arch.PioRuns
import Raincloud.Fs.PioVolume
import Raincloud.Infra.BitField
import Raincloud.Arch.Segments
import Raincloud.Arch.SegmentTables
import Raincloud.Arch.GateRuns
import Raincloud.Arch.TableRuns
import Raincloud.Arch.Dump
import Raincloud.Arch.DumpText
import Raincloud.Arch.Pic8259
import Raincloud.Arch.PicRuns
import Raincloud.Display.DisplayInit
import Raincloud.Proc.Privilege
