import PulseImaging.Acceptance
import PulseImaging.AllocatedSectors
import PulseImaging.ArrayFile
import PulseImaging.AutoSave
import PulseImaging.BackupFiles
import PulseImaging.BackupSession
import PulseImaging.BaseDirectory
import PulseImaging.BiosNumbers
import PulseImaging.Bitmap
import PulseImaging.BitmapExpansion
import PulseImaging.BitmapMarks
import PulseImaging.BlockCounter
import PulseImaging.BlockLists
import PulseImaging.BlockReads
import PulseImaging.BootRestore
import PulseImaging.BootTransfer
import PulseImaging.ByteDecoder
import PulseImaging.CText
import PulseImaging.ClusterMarks
import PulseImaging.CompressVolume
import PulseImaging.ConfText
import PulseImaging.DataRuns
import PulseImaging.Decompress
import PulseImaging.DecompressImage
import PulseImaging.DecompressionMemory
import PulseImaging.DeflateComplete
import PulseImaging.DeflateDriver
import PulseImaging.Descriptions
import PulseImaging.DhcpOptions
import PulseImaging.DiskEnd
import PulseImaging.DiskNumbering
import PulseImaging.DiskRuns
import PulseImaging.E2fsBitmap
import PulseImaging.ExclusionList
import PulseImaging.FatBitmap
import PulseImaging.FatFile
import PulseImaging.FatMount
import PulseImaging.FatReads
import PulseImaging.Fate
import PulseImaging.FiledRanges
import PulseImaging.FlushBounds
import PulseImaging.FlushToDisk
import PulseImaging.HeaderFields
import PulseImaging.ImageE2fs
import PulseImaging.ImageFat
import PulseImaging.ImageFormat
import PulseImaging.ImageNames
import PulseImaging.ImageNtfs
import PulseImaging.ImageReiserfs
import PulseImaging.ImageStream
import PulseImaging.ImageTransfer
import PulseImaging.ImageXfs
import PulseImaging.InventoryOrder
import PulseImaging.IpChecksum
import PulseImaging.LinkedQueue
import PulseImaging.LittleEndian
import PulseImaging.Lvm
import PulseImaging.LvmLines
import PulseImaging.LvmMetadata
import PulseImaging.LvmOffset
import PulseImaging.LvmWritten
import PulseImaging.MenuConfig
import PulseImaging.MenuEntries
import PulseImaging.MftRecord
import PulseImaging.NewGet
import PulseImaging.NtfsEnds
import PulseImaging.NtfsParser
import PulseImaging.NtfsRuns
import PulseImaging.NtfsWalk
import PulseImaging.OnesComplement
import PulseImaging.OpenPartition
import PulseImaging.PartCopy
import PulseImaging.PartTables
import PulseImaging.PartitionList
import PulseImaging.PasswordGate
import PulseImaging.PcSlices
import PulseImaging.PieceReads
import PulseImaging.RawRanges
import PulseImaging.ReadErrors
import PulseImaging.Receive
import PulseImaging.ReiserBitmap
import PulseImaging.Repetition
import PulseImaging.Restore
import PulseImaging.RestoreConf
import PulseImaging.RestoreImage
import PulseImaging.RestoreSteps
import PulseImaging.RestoredDisks
import PulseImaging.Retransmission
import PulseImaging.Retry
import PulseImaging.RoundTrip
import PulseImaging.RunMenu
import PulseImaging.SavedVolumes
import PulseImaging.Scanf
import PulseImaging.SectorRuns
import PulseImaging.SectorViews
import PulseImaging.SectorVisit
import PulseImaging.SeekDevice
import PulseImaging.SmbiosInventory
import PulseImaging.SmbiosTable
import PulseImaging.SmbiosWalk
import PulseImaging.StoredStream
import PulseImaging.StreamDecoder
import PulseImaging.TextFile
import PulseImaging.TftpRead
import PulseImaging.TftpWindow
import PulseImaging.TftpWrap
import PulseImaging.Timespec
import PulseImaging.TrackBuffer
import PulseImaging.TrackRuns
import PulseImaging.Traversal
import PulseImaging.UdpEmulation
import PulseImaging.Unpack
import PulseImaging.WriteErrors
import PulseImaging.WriteRequests
import PulseImaging.XfsBitmap
import PulseImaging.XfsScan
import PulseImaging.ZonePool
