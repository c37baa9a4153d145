import CloudStorage.Bundle
import CloudStorage.Upload
import CloudStorage.Containment
import CloudStorage.Compression
import CloudStorage.EntityTag
import CloudStorage.Access
import CloudStorage.Restart
import CloudStorage.Url
import CloudStorage.Base64
import CloudStorage.RangeGrammar
import CloudStorage.Guessing
import CloudStorage.SessionStore
import CloudStorage.Rotation
import CloudStorage.Backup
import CloudStorage.AsyncWake
import CloudStorage.ThreadPoolRun
import CloudStorage.Concurrent
import CloudStorage.Crash
import CloudStorage.FileList
import CloudStorage.Legacy
import CloudStorage.Cookie
import CloudStorage.RollFile
import CloudStorage.BackupAccount
import CloudStorage.BufferRun
import CloudStorage.FileRefine
import CloudStorage.TcpServerRun
import CloudStorage.Authority
import CloudStorage.LoginGuard
import CloudStorage.LogPipeline
import CloudStorage.BackupFailures
import CloudStorage.BackupClient
import CloudStorage.Page
import CloudStorage.Available
